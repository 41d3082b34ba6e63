import Mathlib
import LinkedTables.Schema.Reach

/-!
# The search in rounds

The search for tables in reach takes them one by one from a queue.  The proofs look at it in rounds:
the tables that lie one relation further than those of the last round and have not been met before
form the next one.  Within a round the order is that of the tables they were found from, and then of
declaration.

**What is found.**  `Search` is the invariant of the rounds: no table is found twice, and every
entry but that of the home table extends the path of another entry by one declared relation.

**The last round.**  `unseen` has the registered tables that have not been met.  A round that finds
a registered table makes it smaller, and one that does not is the last: an unregistered table has no
relations to follow (`nextRound_cases`).  So with more rounds than unseen tables the last round is
reached, and this is an induction (`rounds_induction`).

**The queue.**  In the middle of a round the queue has the rest of the round, and behind it what has
been found from the tables before.  Once the round has been taken from it, it has the next one
(`Frontier.run_append`).  So **the queue gives the rounds one after the other**
(`reachable_eq_roundsFrom`), and with more steps it finds nothing more
(`run_frontier_eq_reachable`).
-/

namespace LinkedTables

namespace Schema

variable {s : Schema} {home id : TableId} {rounds steps : ℕ} {seen : List TableId}
  {found round : List Reached}

/-! ## Rounds -/

/-- The tables found from one round, which have not been met before. -/
def nextRound (s : Schema) (seen : List TableId) : List Reached → List Reached
  | [] => []
  | x :: rest =>
    let found := discover seen x.path (s.relationsOf x.table)
    found ++ nextRound s (found.map Reached.table ++ seen) rest

/-- A round and at most `rounds` rounds after it. -/
def roundsFrom (s : Schema) : (rounds : ℕ) → (seen : List TableId) → List Reached → List Reached
  | 0, _, round => round
  | rounds + 1, seen, round =>
    match nextRound s seen round with
    | [] => round
    | x :: rest =>
      round ++ roundsFrom s rounds ((x :: rest).map Reached.table ++ seen) (x :: rest)

/-! ## What is found -/

/-- One entry is found from another over a relation. -/
def Extends (s : Schema) (y x : Reached) : Prop :=
  ∃ r ∈ s.relationsOf y.table, x = ⟨r.target, y.path ++ [r]⟩

lemma mem_discover {path rs : List Relation} {x : Reached} :
    ∀ {seen : List TableId}, x ∈ discover seen path rs →
      x.table ∉ seen ∧ ∃ r ∈ rs, x = ⟨r.target, path ++ [r]⟩ := by
  induction rs with
  | nil =>
    intro seen h
    simp [discover] at h
  | cons r rest ih =>
    intro seen h
    simp only [discover] at h
    split_ifs at h with hseen
    · rcases ih h with ⟨hx, r', hr', rfl⟩
      exact ⟨hx, r', List.mem_cons_of_mem r hr', rfl⟩
    · rcases List.mem_cons.1 h with rfl | h
      · exact ⟨hseen, r, by simp, rfl⟩
      · rcases ih h with ⟨hx, r', hr', rfl⟩
        exact ⟨fun hmem => hx (List.mem_cons_of_mem _ hmem), r', List.mem_cons_of_mem r hr', rfl⟩

lemma nodup_discover {path rs : List Relation} :
    ∀ {seen : List TableId}, ((discover seen path rs).map Reached.table).Nodup := by
  induction rs with
  | nil =>
    intro seen
    simp [discover]
  | cons r rest ih =>
    intro seen
    simp only [discover]
    split_ifs with hseen
    · exact ih
    · refine List.nodup_cons.2 ⟨?_, ih⟩
      rintro hmem
      rcases List.mem_map.1 hmem with ⟨x, hx, hxr⟩
      exact (mem_discover hx).1 (by simp [hxr])

lemma mem_nextRound {x : Reached} :
    ∀ {seen : List TableId}, x ∈ nextRound s seen round →
      x.table ∉ seen ∧ ∃ y ∈ round, s.Extends y x := by
  induction round with
  | nil =>
    intro seen h
    simp [nextRound] at h
  | cons y rest ih =>
    intro seen h
    rcases List.mem_append.1 h with h | h
    · rcases mem_discover h with ⟨hx, hr⟩
      exact ⟨hx, y, by simp, hr⟩
    · rcases ih h with ⟨hx, z, hz, hzx⟩
      exact ⟨fun hmem => hx (List.mem_append_right _ hmem), z, List.mem_cons_of_mem y hz, hzx⟩

lemma nodup_nextRound :
    ∀ {seen : List TableId}, ((nextRound s seen round).map Reached.table).Nodup := by
  induction round with
  | nil =>
    intro seen
    simp [nextRound]
  | cons y rest ih =>
    intro seen
    simp only [nextRound, List.map_append]
    refine List.Nodup.append nodup_discover ih ?_
    intro id hid hid'
    rcases List.mem_map.1 hid' with ⟨x, hx, rfl⟩
    exact (mem_nextRound hx).1 (List.mem_append_left _ hid)

/-- What has been found after some rounds. -/
structure Search (s : Schema) (home : TableId) (found : List Reached) : Prop where
  nodup : (found.map Reached.table).Nodup
  grown : ∀ x ∈ found, x = ⟨home, []⟩ ∨ ∃ y ∈ found, s.Extends y x

lemma Search.nextRound (h : Search s home (found ++ round))
    (hseen : ∀ x ∈ found ++ round, x.table ∈ seen) :
    Search s home (found ++ round ++ s.nextRound seen round) := by
  constructor
  · rw [List.map_append]
    refine h.nodup.append nodup_nextRound ?_
    intro id hid hid'
    rcases List.mem_map.1 hid with ⟨x, hx, rfl⟩
    rcases List.mem_map.1 hid' with ⟨y, hy, hyx⟩
    exact (mem_nextRound hy).1 (hyx ▸ hseen x hx)
  · intro x hx
    rcases List.mem_append.1 hx with hx | hx
    · rcases h.grown x hx with hx | ⟨y, hy, hyx⟩
      · exact Or.inl hx
      · exact Or.inr ⟨y, List.mem_append_left _ hy, hyx⟩
    · rcases mem_nextRound hx with ⟨-, y, hy, hyx⟩
      exact Or.inr ⟨y, by simp [hy], hyx⟩

/-- The rounds keep the invariant. -/
lemma Search.roundsFrom :
    ∀ {found round : List Reached} {seen : List TableId}, Search s home (found ++ round) →
      (∀ x ∈ found ++ round, x.table ∈ seen) →
      Search s home (found ++ s.roundsFrom rounds seen round) := by
  induction rounds with
  | zero =>
    intro found round seen h _
    exact h
  | succ rounds ih =>
    intro found round seen h hseen
    have hnext := h.nextRound hseen
    simp only [Schema.roundsFrom]
    split
    · exact h
    · rename_i x rest hround
      rw [hround] at hnext
      rw [← List.append_assoc]
      refine ih hnext ?_
      intro y hy
      rcases List.mem_append.1 hy with hy | hy
      · exact List.mem_append_right _ (hseen y hy)
      · exact List.mem_append_left _ (List.mem_map_of_mem hy)

/-! ## The last round -/

/-- The registered tables that have not been met. -/
def unseen (s : Schema) (seen : List TableId) : Finset TableId :=
  Finset.range s.size \ seen.toFinset

lemma relationsOf_eq_nil (h : s.size ≤ id) : s.relationsOf id = [] := by
  have hnone : s.entries[id]? = none := Array.getElem?_eq_none h
  simp [relationsOf, hnone]

lemma nextRound_eq_nil (h : ∀ x ∈ round, s.size ≤ x.table) : s.nextRound seen round = [] := by
  induction round generalizing seen with
  | nil => rfl
  | cons x rest ih =>
    have hx : s.relationsOf x.table = [] := relationsOf_eq_nil (h x (by simp))
    have hrest : ∀ y ∈ rest, s.size ≤ y.table := fun y hy => h y (List.mem_cons_of_mem x hy)
    simp [nextRound, hx, discover, ih hrest]

/-- A round without a next one is the last. -/
lemma roundsFrom_eq_self (h : s.nextRound seen round = []) :
    s.roundsFrom rounds seen round = round := by
  cases rounds with
  | zero => rfl
  | succ rounds => simp [roundsFrom, h]

lemma roundsFrom_succ (h : s.nextRound seen round ≠ []) :
    s.roundsFrom (rounds + 1) seen round = round ++ s.roundsFrom rounds
      ((s.nextRound seen round).map Reached.table ++ seen) (s.nextRound seen round) := by
  rw [roundsFrom]
  split
  · contradiction
  · rename_i x rest hround
    rw [hround]

/-- To meet a registered table leaves fewer of them. -/
lemma card_unseen_lt {x : Reached} (hx : x ∈ s.nextRound seen round) (hlt : x.table < s.size) :
    (s.unseen ((s.nextRound seen round).map Reached.table ++ seen)).card
      < (s.unseen seen).card := by
  have hsubset : s.unseen ((s.nextRound seen round).map Reached.table ++ seen) ⊆ s.unseen seen := by
    refine Finset.sdiff_subset_sdiff le_rfl ?_
    intro id hid
    simp only [List.mem_toFinset] at hid ⊢
    exact List.mem_append_right _ hid
  refine Finset.card_lt_card ((Finset.ssubset_iff_of_subset hsubset).2 ⟨x.table, ?_, ?_⟩)
  · simpa [unseen, hlt] using (mem_nextRound hx).1
  · have hmem : x.table ∈ (s.nextRound seen round).map Reached.table := List.mem_map_of_mem hx
    simp [unseen, hmem]

/-- A round is the last one, or the next one is, or it leaves fewer tables unseen. -/
lemma nextRound_cases (s : Schema) (seen : List TableId) (round : List Reached) :
    s.nextRound seen round = []
      ∨ (∀ seen', s.nextRound seen' (s.nextRound seen round) = [])
      ∨ (s.unseen ((s.nextRound seen round).map Reached.table ++ seen)).card
        < (s.unseen seen).card := by
  by_cases hall : ∀ x ∈ s.nextRound seen round, s.size ≤ x.table
  · exact Or.inr (Or.inl fun seen' => nextRound_eq_nil hall)
  · simp only [not_forall, not_le] at hall
    rcases hall with ⟨x, hx, hlt⟩
    exact Or.inr (Or.inr (card_unseen_lt hx hlt))

/-- **Induction over rounds**, from the last one back: there are more rounds than tables unseen. -/
theorem rounds_induction {motive : ℕ → List TableId → List Reached → Prop}
    (last : ∀ rounds seen round, s.nextRound seen round = [] → motive rounds seen round)
    (more : ∀ rounds seen round, s.nextRound seen round ≠ [] →
      motive rounds ((s.nextRound seen round).map Reached.table ++ seen)
        (s.nextRound seen round) → motive (rounds + 1) seen round)
    (h : (s.unseen seen).card < rounds) : motive rounds seen round := by
  induction rounds generalizing seen round with
  | zero => omega
  | succ rounds ih =>
    by_cases hnext : s.nextRound seen round = []
    · exact last _ _ _ hnext
    · refine more _ _ _ hnext ?_
      rcases nextRound_cases s seen round with hnil | hlast | hlt
      · contradiction
      · exact last _ _ _ (hlast _)
      · exact ih (by omega)

/-- The home table alone has been met when the search begins. -/
lemma card_unseen_home (hhome : home < s.size) : (s.unseen [home]).card < s.size := by
  have hlt : (s.unseen [home]).card < (Finset.range s.size).card := by
    refine Finset.card_lt_card ((Finset.ssubset_iff_of_subset Finset.sdiff_subset).2 ⟨home, ?_, ?_⟩)
    · simpa using hhome
    · simp
  simpa using hlt

/-! ## The queue -/

lemma discover_congr {seen' : List TableId} (h : ∀ id, id ∈ seen' ↔ id ∈ seen)
    (path rs : List Relation) : discover seen' path rs = discover seen path rs := by
  induction rs generalizing seen seen' with
  | nil => rfl
  | cons r rest ih =>
    have hmore : ∀ id, id ∈ r.target :: seen' ↔ id ∈ r.target :: seen := by
      simp [h]
    simp only [discover, h, ih h, ih hmore]

namespace Frontier

lemma run_nil : run s steps ⟨seen, []⟩ = [] := by
  cases steps <;> rfl

lemma run_cons (x : Reached) (rest : List Reached) :
    run s (steps + 1) ⟨seen, x :: rest⟩ = x :: run s steps
      ⟨(discover seen x.path (s.relationsOf x.table)).map Reached.table ++ seen,
        rest ++ discover seen x.path (s.relationsOf x.table)⟩ := rfl

/-- In which order tables have been met is of no importance. -/
lemma run_congr {seen' : List TableId} (h : ∀ id, id ∈ seen' ↔ id ∈ seen) (queue : List Reached) :
    run s steps ⟨seen', queue⟩ = run s steps ⟨seen, queue⟩ := by
  induction steps generalizing seen seen' queue with
  | zero => rfl
  | succ steps ih =>
    cases queue with
    | nil => rfl
    | cons x rest =>
      rw [run_cons, run_cons, discover_congr h, ih]
      simp [h]

/-- **A round is taken from the queue**, and what is found from it stands behind the others. -/
lemma run_append (round others : List Reached) :
    run s (round.length + steps) ⟨seen, round ++ others⟩ = round ++ run s steps
      ⟨(s.nextRound seen round).map Reached.table ++ seen, others ++ s.nextRound seen round⟩ := by
  induction round generalizing seen others with
  | nil => simp [nextRound]
  | cons x rest ih =>
    have hsteps : (x :: rest).length + steps = rest.length + steps + 1 := by
      rw [List.length_cons]
      omega
    rw [hsteps, List.cons_append, run_cons, List.append_assoc, ih, List.cons_append, nextRound,
      List.append_assoc]
    congr 2
    refine run_congr (fun id => ?_) _
    simp only [List.map_append, List.mem_append]
    tauto

/-- What follows a round is the next one. -/
lemma run_round {more : ℕ} (hsteps : steps = round.length + more) :
    run s steps ⟨seen, round⟩ = round ++ run s more
      ⟨(s.nextRound seen round).map Reached.table ++ seen, s.nextRound seen round⟩ := by
  have h : run s (round.length + more) ⟨seen, round ++ []⟩ = _ := run_append round []
  rwa [List.append_nil, List.nil_append, ← hsteps] at h

/-- With enough steps the queue gives all rounds. -/
lemma run_eq_roundsFrom (h : (s.unseen seen).card < rounds) :
    ∀ {steps : ℕ}, (s.roundsFrom rounds seen round).length ≤ steps →
      run s steps ⟨seen, round⟩ = s.roundsFrom rounds seen round := by
  refine rounds_induction (motive := fun rounds seen round => ∀ {steps : ℕ},
    (s.roundsFrom rounds seen round).length ≤ steps →
      run s steps ⟨seen, round⟩ = s.roundsFrom rounds seen round) ?_ ?_ h
  · intro rounds seen round hlast steps hle
    rw [roundsFrom_eq_self hlast] at hle ⊢
    rw [run_round (Nat.add_sub_of_le hle).symm, hlast, run_nil, List.append_nil]
  · intro rounds seen round hnext ih steps hle
    rw [roundsFrom_succ hnext] at hle ⊢
    rw [List.length_append] at hle
    obtain ⟨more, rfl⟩ := Nat.exists_eq_add_of_le (le_trans (Nat.le_add_right ..) hle)
    rw [run_round rfl, ih (Nat.le_of_add_le_add_left hle)]

end Frontier

lemma mem_allRelations {r : Relation} (hr : r ∈ s.relationsOf id) : r ∈ s.allRelations := by
  cases hentry : s.entries[id]? with
  | none => simp [relationsOf, hentry] at hr
  | some entry =>
    have hr' : r ∈ entry.relations := by simpa [relationsOf, hentry] using hr
    exact List.mem_flatMap.2 ⟨entry, (Array.mem_of_getElem? hentry).val, hr'⟩

/-- Every table but the home table is found by a relation of its own. -/
lemma Search.length_le (h : Search s home found) :
    found.length ≤ s.allRelations.length + 1 := by
  have hsubset : found.map Reached.table ⊆ home :: s.allRelations.map Relation.target := by
    intro id hid
    obtain ⟨x, hx, rfl⟩ := List.mem_map.1 hid
    rcases h.grown x hx with rfl | ⟨y, -, r, hr, rfl⟩
    · exact List.mem_cons_self
    · exact List.mem_cons_of_mem _ (List.mem_map_of_mem (mem_allRelations hr))
  simpa using (h.nodup.subperm hsubset).length_le

lemma search_roundsFrom (s : Schema) (home : TableId) (rounds : ℕ) :
    Search s home (s.roundsFrom rounds [home] [⟨home, []⟩]) := by
  have hstart : Search s home ([] ++ [⟨home, []⟩]) := by
    constructor <;> simp
  exact hstart.roundsFrom (by simp)

/-- With more steps than there are relations the queue gives all rounds. -/
lemma run_frontier (s : Schema) (home : TableId) (hle : s.allRelations.length < steps) :
    (s.frontier home).run s steps
      = if home < s.size then s.roundsFrom s.size [home] [⟨home, []⟩] else [] := by
  rw [frontier]
  split_ifs with hhome
  · exact Frontier.run_eq_roundsFrom (card_unseen_home hhome)
      ((search_roundsFrom s home s.size).length_le.trans hle)
  · exact Frontier.run_nil

/-- **The queue gives the rounds one after the other.** -/
theorem reachable_eq_roundsFrom (s : Schema) (home : TableId) : s.reachable home
    = if home < s.size then s.roundsFrom s.size [home] [⟨home, []⟩] else [] :=
  run_frontier s home (Nat.lt_succ_self _)

/-- **Enough steps are as good as more**: in the end the queue is empty. -/
theorem run_frontier_eq_reachable (s : Schema) (home : TableId)
    (hle : s.allRelations.length < steps) : (s.frontier home).run s steps = s.reachable home := by
  rw [run_frontier s home hle, reachable_eq_roundsFrom]

/-- From a table that is not registered nothing is in reach. -/
lemma reachable_eq_nil (hhome : s.size ≤ home) : s.reachable home = [] := by
  rw [reachable_eq_roundsFrom, if_neg (not_lt.2 hhome)]

/-- **The search in the end**: no table twice, and every entry found from another one. -/
theorem search_reachable (s : Schema) (home : TableId) : Search s home (s.reachable home) := by
  rw [reachable_eq_roundsFrom]
  split_ifs
  · exact search_roundsFrom s home s.size
  · constructor <;> simp

end Schema

end LinkedTables
