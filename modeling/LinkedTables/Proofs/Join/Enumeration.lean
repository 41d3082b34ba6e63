import Mathlib
import LinkedTables.Proofs.Join.Limit
import LinkedTables.Proofs.Lexicographic

/-!
# The rows of a frame one by one

A frame has one row for each assignment that begins at a row of the home table and follows the steps
of its plan (`Frame.Represents`).  Here the rows are put in their places: they stand in the order of
the rows of the home table, those of one row of the home table in the order of the rows that the
first step finds, and so on (`Frame.Enumerates`).

* **Order.**  `Frame.Ordered` is carried from join to join.  The index lists the rows that match one
  after the other, and what is written behind rows of one length leaves them in order.  No row is
  earlier than itself, so none is there twice.
* **Assignments.**  Where a frame has been built each join has found its tables, so the rows are the
  assignments (`Database.represents_of_buildFrame`), whatever filter the plan is made for.
* **Success.**  If moreover the plan can be carried out and all of its tables are there, a frame is
  built.

`enumerates_of_plan` puts these together for the plans of a consistent database.
-/

namespace LinkedTables

/-! ## Rows in order -/

/-- One row of a table stands before another one.  Where a table is missing there is no order. -/
def Earlier (a b : Option ℕ) : Prop := ∃ i ∈ a, ∃ j ∈ b, i < j

lemma earlier_some {i j : ℕ} (h : i < j) : Earlier (some i) (some j) := ⟨i, rfl, j, rfl, h⟩

lemma not_earlier_self (a : Option ℕ) : ¬ Earlier a a := by
  rintro ⟨i, hi, j, hj, hlt⟩
  obtain rfl := Option.mem_unique hi hj
  exact lt_irrefl i hlt

namespace Frame

variable {db : Database} {limit : Option ℕ} {f f' : Frame} {step : JoinStep}

/-- The rows are in lexicographic order, with an entry for every table. -/
structure Ordered (f : Frame) : Prop where
  rows : f.rows.toList.Pairwise (List.Lex Earlier)
  length : ∀ row ∈ f.rows, row.length = f.tables.length

/-- The index has the rows of one key in their order. -/
lemma sorted_matchesOf (cells : List Cell) (slot : ℕ) (keys : Array Cell) (row : FrameRow) :
    (matchesOf (KeyIndex.ofCells cells) slot keys row).Pairwise (· < ·) := by
  simp only [matchesOf]
  split
  · rw [KeyIndex.positions_ofCells]
    have hall : (cells.zipIdx.map Prod.snd).Pairwise (· < ·) := by
      rw [List.zipIdx_map_snd]
      exact List.pairwise_lt_range'
    exact hall.sublist (List.filter_sublist.map _)
  · exact List.Pairwise.nil

/-- What a row becomes is one entry longer. -/
lemma eq_append_of_mem_extendRow {row new : FrameRow} {matching : List ℕ}
    (h : new ∈ extendRow row matching) : ∃ o, new = row ++ [o] := by
  rcases mem_extendRow.1 h with ⟨j, -, rfl⟩ | ⟨-, rfl⟩
  · exact ⟨some j, rfl⟩
  · exact ⟨none, rfl⟩

/-- Every row becomes one at least. -/
lemma exists_mem_extendRow (row : FrameRow) (matching : List ℕ) :
    ∃ o, row ++ [o] ∈ extendRow row matching := by
  cases matching with
  | nil => exact ⟨none, mem_extendRow.2 (Or.inr ⟨rfl, rfl⟩)⟩
  | cons j rest => exact ⟨some j, mem_extendRow.2 (Or.inl ⟨j, List.mem_cons_self .., rfl⟩)⟩

lemma ordered_extendRow (row : FrameRow) {matching : List ℕ} (h : matching.Pairwise (· < ·)) :
    (extendRow row matching).Pairwise (List.Lex Earlier) := by
  cases matching with
  | nil => exact List.pairwise_singleton _ _
  | cons j rest =>
    exact h.map _ fun i j hlt => lex_append_singleton (earlier_some hlt) row

lemma ordered_ofHome (home : TableId) (size : ℕ) : (ofHome home size).Ordered := by
  constructor
  · simp only [ofHome, Array.toList_map, Array.toList_range]
    exact List.pairwise_lt_range.map _ fun i j hlt => .rel (earlier_some hlt)
  · intro row hrow
    simp only [ofHome, Array.mem_map] at hrow
    obtain ⟨i, -, rfl⟩ := hrow
    rfl

/-- **A join keeps the rows in order.** -/
lemma Ordered.join (hf : f.Ordered) (h : (f.join db limit step).result = .ok f') : f'.Ordered := by
  obtain ⟨-, left, right, slot, -, -, -, rfl⟩ := join_eq_ok_iff.1 h
  constructor
  · refine List.pairwise_flatMap.2 ⟨fun row _ => ordered_extendRow row (sorted_matchesOf _ _ _ row),
      hf.rows.imp_of_mem fun {row row'} hmem hmem' hlex new hnew new' hnew' => ?_⟩
    have hlength : row.length = row'.length := by
      rw [hf.length row (Array.mem_toList_iff.1 hmem),
        hf.length row' (Array.mem_toList_iff.1 hmem')]
    obtain ⟨o, rfl⟩ := eq_append_of_mem_extendRow hnew
    obtain ⟨o', rfl⟩ := eq_append_of_mem_extendRow hnew'
    exact lex_append hlex hlength [o] [o']
  · intro new hnew
    rw [List.mem_toArray, List.mem_flatMap] at hnew
    obtain ⟨row, hrow, hnew⟩ := hnew
    obtain ⟨o, rfl⟩ := eq_append_of_mem_extendRow hnew
    rw [List.length_append, List.length_append, hf.length row (Array.mem_toList_iff.1 hrow)]
    rfl

/-- No row is earlier than itself. -/
lemma not_lex_self (row : FrameRow) : ¬ List.Lex Earlier row row := by
  induction row with
  | nil => nofun
  | cons o rest ih =>
    rintro (_ | h | h)
    · exact not_earlier_self o h
    · exact ih h

lemma Ordered.nodup (hf : f.Ordered) : f.rows.toList.Nodup := by
  refine hf.rows.imp ?_
  rintro row row' hlex rfl
  exact not_lex_self row hlex

/-! ## The first entry -/

/-- A row of the home table stays in front of a row. -/
lemma exists_head_of_join {i : ℕ} (hf : ∃ row ∈ f.rows, row.head? = some (some i))
    (h : (f.join db limit step).result = .ok f') :
    ∃ row ∈ f'.rows, row.head? = some (some i) := by
  obtain ⟨-, left, right, slot, -, -, -, rfl⟩ := join_eq_ok_iff.1 h
  obtain ⟨row, hrow, hhead⟩ := hf
  obtain ⟨o, ho⟩ := exists_mem_extendRow row (indexed left right slot step row)
  refine ⟨row ++ [o], ?_, by simp [List.head?_append, hhead]⟩
  exact List.mem_toArray.2 (List.mem_flatMap.2 ⟨row, Array.mem_toList_iff.2 hrow, ho⟩)

/-! ## Reading an entry -/

/-- What a row has for a table is what the assignment has for it. -/
lemma position?_eq {k : ℕ} {row : FrameRow} (hrow : f.rows[k]? = some row) {s : Assignment}
    (hs : row = f.tables.map s) {id : TableId} (hid : id ∈ f.tables) : f.position? k id = s id := by
  obtain ⟨slot, hslot, hget⟩ := exists_slot hid
  simp [position?, hrow, hslot, hs, hget]

lemma position?_eq_none {k : ℕ} {id : TableId} (h : f.size ≤ k ∨ id ∉ f.tables) :
    f.position? k id = none := by
  rcases h with hk | hid
  · have hrow : f.rows[k]? = none := Array.getElem?_eq_none hk
    simp [position?, hrow]
  · have hslot : f.slot? id = none := List.idxOf?_eq_none_iff.2 hid
    simp [position?, hslot]

/-! ## Assignments -/

/-- A join that succeeds keeps the invariant. -/
lemma Represents.of_join {home : TableId} {size : ℕ} {steps : List JoinStep}
    (h : Represents db home size steps f) (htarget : step.target ∉ f.tables)
    (hjoin : (f.join db none step).result = .ok f') :
    Represents db home size (steps ++ [step]) f' := by
  obtain ⟨-, left, right, slot, hleft, hright, hslot, -⟩ := join_eq_ok_iff.1 hjoin
  have hsource : step.source ∈ f.tables := by
    by_contra hnot
    rw [slot?, List.idxOf?_eq_none_iff.2 hnot] at hslot
    cases hslot
  obtain ⟨g, hg, hrep⟩ := h.join (Database.table_eq_ok_iff.1 hleft)
    (Database.table_eq_ok_iff.1 hright) hsource htarget
  rw [hg.result] at hjoin
  cases hjoin
  exact hrep

lemma Represents.of_foldlM_join {home : TableId} {size : ℕ} {todo : List JoinStep} :
    ∀ {done : List JoinStep} {f : Frame}, Represents db home size done f →
      (home :: (done ++ todo).map JoinStep.target).Nodup →
      todo.foldlM (fun f t => (f.join db none t).result) f = .ok f' →
      Represents db home size (done ++ todo) f' := by
  induction todo with
  | nil =>
    intro done f h _ hfold
    cases hfold
    rwa [List.append_nil]
  | cons step rest ih =>
    intro done f h hnodup hfold
    rw [List.foldlM_cons] at hfold
    obtain ⟨f₁, hjoin, hfold⟩ := eq_ok_of_bind hfold
    have htarget := h.target_notMem hnodup
    have hassoc : done ++ [step] ++ rest = done ++ step :: rest := by simp
    rw [← hassoc] at hnodup ⊢
    exact ih (h.of_join htarget hjoin) hnodup hfold

/-! ## Whole frames -/

/-- A frame has one row for each assignment, in order, and is read by the tables of the plan. -/
structure Enumerates (db : Database) (p : JoinPlan) (f : Frame) : Prop where
  /-- an assignment begins at a row of the home table and follows the steps -/
  rows : ∀ row, row ∈ f.rows ↔ ∃ s : Assignment,
    (∃ t, db.tables[p.home]? = some t ∧ ∃ i < t.rowCount, s p.home = some i)
      ∧ (∀ t ∈ p.steps, db.Follows s t) ∧ row = p.tables.map s
  /-- the first entry is that of the home table, and the others are in the order of the steps -/
  ordered : f.rows.toList.Pairwise (List.Lex Earlier)
  nodup : f.rows.toList.Nodup
  home : ∀ t, db.tables[p.home]? = some t → ∀ i < t.rowCount,
    ∃ row ∈ f.rows, row.head? = some (some i)
  read : ∀ k row, f.rows[k]? = some row → ∀ s : Assignment, row = p.tables.map s →
    ∀ id ∈ p.tables, f.position? k id = s id
  unread : ∀ k id, f.size ≤ k ∨ id ∉ p.tables → f.position? k id = none

end Frame

namespace Database

variable {db : Database} {limit : Option ℕ} {p : JoinPlan} {f : Frame}

lemma ordered_of_buildFrame (h : (db.buildFrame limit p).result = .ok f) : f.Ordered := by
  rw [(db.buildFrame_returns limit p).result] at h
  obtain ⟨home, -, h⟩ := eq_ok_of_bind h
  exact foldlM_keeps (fun _ hf hjoin => hf.join hjoin) (Frame.ordered_ofHome _ _) h

lemma exists_head_of_buildFrame (h : (db.buildFrame limit p).result = .ok f) {t : Table}
    (ht : db.tables[p.home]? = some t) {i : ℕ} (hi : i < t.rowCount) :
    ∃ row ∈ f.rows, row.head? = some (some i) := by
  rw [(db.buildFrame_returns limit p).result, table_eq_ok_iff.2 ht] at h
  have hfirst : ∃ row ∈ (Frame.ofHome p.home t.rowCount).rows, row.head? = some (some i) :=
    ⟨[some i], by simpa [Frame.ofHome] using hi, rfl⟩
  exact foldlM_keeps (P := fun f => ∃ row ∈ f.rows, row.head? = some (some i))
    (fun _ hf hjoin => Frame.exists_head_of_join hf hjoin) hfirst h

/-- **The rows of a frame that has been built are the assignments.** -/
theorem represents_of_buildFrame (hp : p.tables.Nodup)
    (h : (db.buildFrame none p).result = .ok f) :
    ∃ t, db.tables[p.home]? = some t ∧ Frame.Represents db p.home t.rowCount p.steps f := by
  rw [(db.buildFrame_returns none p).result] at h
  obtain ⟨home, hhome, h⟩ := eq_ok_of_bind h
  exact ⟨home, table_eq_ok_iff.1 hhome,
    (Frame.represents_ofHome db p.home home.rowCount).of_foldlM_join hp h⟩

/-- **A frame that has been built lists the assignments of its plan.** -/
theorem enumerates_of_buildFrame (hp : p.tables.Nodup)
    (h : (db.buildFrame none p).result = .ok f) : f.Enumerates db p := by
  obtain ⟨t, ht, hrep⟩ := represents_of_buildFrame hp h
  have hordered := ordered_of_buildFrame h
  have htables : f.tables = p.tables := hrep.tables
  refine ⟨fun row => ?_, hordered.rows, hordered.nodup, fun t ht i hi =>
    exists_head_of_buildFrame h ht hi, fun k row hrow s hs id hid => ?_, fun k id hk => ?_⟩
  · rw [hrep.rows, htables]
    simp [ht]
  · rw [← htables] at hs hid
    exact Frame.position?_eq hrow hs hid
  · rw [← htables] at hk
    exact Frame.position?_eq_none hk

/-- The schema and the tables belong together: relations join tables that are there, and each stands
with its source. -/
structure Consistent (db : Database) : Prop where
  schema : db.schema.Closed
  size_le : db.schema.size ≤ db.tables.size

end Database

lemma Catalog.Reachable.consistent_database {c : Catalog} (hc : c.Reachable) :
    c.database.Consistent := ⟨hc.closed.schema, hc.closed.size_eq.le⟩

/-- The frame of a plan is built if the explicit paths of its filter start at the home table, as
those of a bound filter do. -/
lemma exists_buildFrame_of_plan {db : Database} {home : TableId} {f : BoundFilter} {p : JoinPlan}
    (hdb : db.Consistent) (hp : db.schema.plan home f = .ok p) (hhome : home < db.tables.size)
    (hf : f.Rooted db.schema home) : ∃ frame, (db.buildFrame none p).result = .ok frame := by
  obtain ⟨hrunnable, hdeclared⟩ := runnable_of_rooted hdb.schema hf hp
  obtain rfl := home_of_plan hp
  have hregistered : ∀ id ∈ p.tables, ∃ t, db.tables[id]? = some t := by
    intro id hid
    refine ⟨_, Array.getElem?_eq_getElem ?_⟩
    rcases List.mem_cons.1 hid with rfl | hid
    · exact hhome
    · obtain ⟨t, ht, rfl⟩ := List.mem_map.1 hid
      exact (hdb.schema _ _ (hdeclared t ht)).2.2.trans_le hdb.size_le
  obtain ⟨t, ht⟩ := hregistered p.home (List.mem_cons_self ..)
  obtain ⟨frame, hframe, -⟩ := hrunnable.exists_buildFrame hregistered ht
  exact ⟨frame, hframe.result⟩

/-- **The joined rows of a plan.**  For a filter with explicit paths that start at the home table,
as those of a bound filter do, the frame is built, and whatever the filter is a frame that is built
lists the assignments of its plan in order. -/
theorem enumerates_of_plan {db : Database} {home : TableId} {f : BoundFilter} {p : JoinPlan}
    (hdb : db.Consistent) (hp : db.schema.plan home f = .ok p) :
    (home < db.tables.size → f.Rooted db.schema home →
        ∃ frame, (db.buildFrame none p).result = .ok frame)
      ∧ ∀ frame, (db.buildFrame none p).result = .ok frame → frame.Enumerates db p :=
  ⟨exists_buildFrame_of_plan hdb hp,
    fun _ => Database.enumerates_of_buildFrame (nodup_of_plan hp)⟩

/-- Three tables in a chain: a row of `h` may have several partners in `o` or none, and so may a row
of `o` in `q`. -/
def chain : Catalog :=
  Catalog.empty .standard
    |>.withTable "h" ⟨[⟨"k", #[.integer 1, .integer 2, .integer 3]⟩], #[0, 1, 2]⟩
    |>.withTable "o" ⟨[⟨"k", #[.integer 1, .integer 2, .integer 1]⟩,
        ⟨"m", #[.integer 5, .null, .integer 5]⟩], #[0, 1, 2]⟩
    |>.withTable "q" ⟨[⟨"m", #[.integer 5, .integer 5]⟩, ⟨"z", #[.integer 0, .integer 1]⟩], #[0, 1]⟩
    |>.withRelation ⟨0, "o", 1, "k", "k"⟩
    |>.withRelation ⟨1, "q", 2, "m", "m"⟩

lemma reachable_chain : chain.Reachable :=
  .withRelation (.withRelation (.withTable (.withTable (.withTable (.empty _) _ _) _ _) _ _) _) _

/-- The filter `z == 1` on the last table of the chain. -/
def chainFilter : BoundFilter := ⟨.compare ⟨2, "z"⟩ .eq (.integer 1), []⟩

/-- Its plan, which joins the whole chain. -/
def chainPlan : JoinPlan :=
  ⟨0, [⟨0, "o", 1, "k", "k", 1⟩, ⟨1, "q", 2, "m", "m", 2⟩], #["h", "o", "q"]⟩

lemma plan_chain :
    (chain.database.bindFilter 0 .strict (.compare ⟨.plain "z", 0⟩ .eq (.integer 1))).result
        = .ok chainFilter
      ∧ chain.schema.plan 0 chainFilter = .ok chainPlan ∧ 0 < chain.database.tables.size :=
  ⟨by cbv, by cbv, by cbv⟩

/-- A filter on `q` joins the chain: the first row has two partners with two partners each, the
second one has a partner without any, and the last one has none. -/
theorem enumerates_of_plan_chain :
    ∃ f p frame, chain.schema.plan 0 f = .ok p
      ∧ (chain.database.buildFrame none p).result = .ok frame
      ∧ frame.Enumerates chain.database p
      ∧ frame.rows = #[[some 0, some 0, some 0], [some 0, some 0, some 1],
          [some 0, some 2, some 0], [some 0, some 2, some 1], [some 1, some 1, none],
          [some 2, none, none]] := by
  have hrows : ((chain.database.buildFrame none chainPlan).result.map Frame.rows)
      = .ok #[[some 0, some 0, some 0], [some 0, some 0, some 1], [some 0, some 2, some 0],
        [some 0, some 2, some 1], [some 1, some 1, none], [some 2, none, none]] := by
    cbv
  obtain ⟨hbound, hplan, hhome⟩ := plan_chain
  obtain ⟨hbuilt, hlisted⟩ := enumerates_of_plan reachable_chain.consistent_database hplan
  obtain ⟨frame, hframe⟩ := hbuilt hhome (Database.rooted_of_bindFilter hbound)
  refine ⟨_, _, frame, hplan, hframe, hlisted frame hframe, ?_⟩
  rw [hframe] at hrows
  exact Except.ok.inj hrows

end LinkedTables
