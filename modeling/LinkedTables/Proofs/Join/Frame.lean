import Mathlib
import LinkedTables.Join.Frame
import LinkedTables.Proofs.Join.Planning

/-!
# What the rows of a frame stand for

A joined row is an assignment of row positions to the tables of the frame.  `Follows` says what a
left join means for an assignment: the table joined is at a row that matches, or missing if there is
none.  `Represents` is the invariant of the joins: **the rows of the frame are exactly the
assignments that follow all steps so far**, read off in the order of the tables.

* `mem_matchesOf` — the rows that the index finds are those that match.
* `Represents.join` — one join keeps the invariant.
* `exists_buildFrame` — without a limit, a plan that can be carried out gives a frame, and the
  invariant holds of it for all steps.
-/

namespace LinkedTables

/-- A row position for every table, or none. -/
abbrev Assignment := TableId → Option ℕ

namespace Database

variable {db : Database}

/-- The cell of a column in the row that an assignment gives to its table. -/
def cellAt (db : Database) (s : Assignment) (id : TableId) (column : String) : Option Cell := do
  (← db.tables[id]?).cell? (← s id) column

/-- A row of the table to be joined has the same key as the row it is joined to. -/
def Matches (db : Database) (s : Assignment) (t : JoinStep) (j : ℕ) : Prop :=
  ∃ key right, (db.cellAt s t.source t.onLeft).bind Cell.joinKey? = some key
    ∧ db.tables[t.target]? = some right ∧ j < right.rowCount
    ∧ (right.cell? j t.onRight).bind Cell.joinKey? = some key

/-- What a left join means: the table joined is at a row that matches, or missing if none does. -/
def Follows (db : Database) (s : Assignment) (t : JoinStep) : Prop :=
  (∃ j, s t.target = some j ∧ db.Matches s t j) ∨ (s t.target = none ∧ ∀ j, ¬ db.Matches s t j)

/-- Which rows match does not depend on the other tables. -/
lemma matches_update {s : Assignment} {t : JoinStep} {id : TableId} {o : Option ℕ}
    (hsource : t.source ≠ id) {j : ℕ} :
    db.Matches (Function.update s id o) t j ↔ db.Matches s t j := by
  simp only [Matches, cellAt, Function.update_of_ne hsource]

lemma follows_update {s : Assignment} {t : JoinStep} {id : TableId} {o : Option ℕ}
    (hsource : t.source ≠ id) (htarget : t.target ≠ id) :
    db.Follows (Function.update s id o) t ↔ db.Follows s t := by
  simp only [Follows, Function.update_of_ne htarget, matches_update hsource]

end Database

namespace Frame

/-! ## Matching rows -/

lemma exists_slot {f : Frame} {id : TableId} (h : id ∈ f.tables) :
    ∃ slot, f.slot? id = some slot ∧ f.tables[slot]? = some id := by
  rcases Option.ne_none_iff_exists'.1 (mt List.idxOf?_eq_none_iff.1 (not_not_intro h)) with
    ⟨slot, hslot⟩
  obtain ⟨hlt, heq, -⟩ := List.idxOf?_eq_some_iff.1 hslot
  exact ⟨slot, hslot, by rw [List.getElem?_eq_getElem hlt, heq]⟩

lemma getElem?_cellsOf (t : Table) (name : String) (i : ℕ) :
    (cellsOf t name)[i]? = t.cell? i name := by
  simp only [cellsOf, Table.cell?]
  cases t.column? name <;> simp

lemma mem_positions_ofCells {cells : List Cell} {key : Cell.Key} {j : ℕ} :
    j ∈ (KeyIndex.ofCells cells).positions key
      ↔ cells[j]?.bind Cell.joinKey? = some key := by
  rw [KeyIndex.positions_ofCells]
  simp [List.mem_zipIdx_iff_getElem?, Option.bind_eq_some_iff, and_comm]

lemma mem_positions_indexOf {t : Table} {name : String} {key : Cell.Key} {j : ℕ} :
    j ∈ (indexOf t name).positions key
      ↔ j < t.rowCount ∧ (t.cell? j name).bind Cell.joinKey? = some key := by
  rw [indexOf, mem_positions_ofCells, List.getElem?_take, ← getElem?_cellsOf, Array.getElem?_toList]
  split_ifs with hj <;> simp [hj]

/-- **The index finds the rows that match.** -/
lemma mem_matchesOf {db : Database} {left right : Table} {step : JoinStep} {s : Assignment}
    {tables : List TableId} {slot j : ℕ} (hleft : db.tables[step.source]? = some left)
    (hright : db.tables[step.target]? = some right) (hslot : tables[slot]? = some step.source) :
    j ∈ matchesOf (indexOf right step.onRight) slot (cellsOf left step.onLeft) (tables.map s)
      ↔ db.Matches s step j := by
  have hrow : (tables.map s)[slot]?.join = s step.source := by
    simp [hslot]
  have hcell : (s step.source).bind ((cellsOf left step.onLeft)[·]?)
      = db.cellAt s step.source step.onLeft := by
    simp only [Database.cellAt, hleft, getElem?_cellsOf]
    rfl
  simp only [matchesOf, hrow, hcell, Database.Matches, hright]
  cases hfound : (db.cellAt s step.source step.onLeft).bind Cell.joinKey? with
  | none => simp
  | some key => simp [mem_positions_indexOf]

/-! ## Joined rows -/

lemma mem_extendRow {row row' : FrameRow} {matching : List ℕ} :
    row' ∈ extendRow row matching ↔ (∃ j ∈ matching, row' = row ++ [some j])
      ∨ (matching = [] ∧ row' = row ++ [none]) := by
  cases matching with
  | nil => simp [extendRow]
  | cons j rest => simp [extendRow, eq_comm]

/-- Without a limit, every row is replaced by what it becomes. -/
lemma extendRows_none (matching : FrameRow → List ℕ) {rows : List FrameRow} :
    ∀ {done : List FrameRow} {count : ℕ}, extendRows none matching done count rows
      = .ok (done.reverse ++ rows.flatMap fun row => extendRow row (matching row)) := by
  induction rows with
  | nil =>
    intro done count
    simp [extendRows]
  | cons row rest ih =>
    intro done count
    simp only [extendRows, Option.filter_none, ih]
    simp

lemma map_update {tables : List TableId} {s : Assignment} {id : TableId} {o : Option ℕ}
    (h : id ∉ tables) :
    (tables ++ [id]).map (Function.update s id o) = tables.map s ++ [o] := by
  have hkept : ∀ id' ∈ tables, Function.update s id o id' = s id' := by
    intro id' hid'
    have hne : id' ≠ id := ne_of_mem_of_not_mem hid' h
    exact Function.update_of_ne hne o s
  rw [List.map_append, List.map_congr_left hkept]
  simp

/-- The rows of a frame are the assignments that begin at a row of the home table and follow the
steps. -/
structure Represents (db : Database) (home : TableId) (size : ℕ) (steps : List JoinStep)
    (f : Frame) : Prop where
  tables : f.tables = home :: steps.map JoinStep.target
  sources : ∀ t ∈ steps, t.source ∈ f.tables
  rows : ∀ row, row ∈ f.rows ↔ ∃ s : Assignment, (∃ i < size, s home = some i)
    ∧ (∀ t ∈ steps, db.Follows s t) ∧ row = f.tables.map s

lemma represents_ofHome (db : Database) (home : TableId) (size : ℕ) :
    Represents db home size [] (ofHome home size) := by
  refine ⟨rfl, by simp, ?_⟩
  intro row
  simp only [ofHome, Array.mem_map, Array.mem_range]
  constructor
  · rintro ⟨i, hi, rfl⟩
    exact ⟨fun _ => some i, ⟨i, hi, rfl⟩, by simp, by simp⟩
  · rintro ⟨s, ⟨i, hi, hs⟩, -, rfl⟩
    exact ⟨i, hi, by simp [hs]⟩

/-- Where a table is joined, the rows are those that follow one step more. -/
lemma Represents.extend {db : Database} {home : TableId} {size : ℕ} {steps : List JoinStep}
    {f : Frame} (h : Represents db home size steps f) {step : JoinStep}
    {matching : FrameRow → List ℕ} (hsource : step.source ∈ f.tables)
    (htarget : step.target ∉ f.tables)
    (hmatching : ∀ s : Assignment, ∀ j, j ∈ matching (f.tables.map s) ↔ db.Matches s step j) :
    Represents db home size (steps ++ [step]) ⟨f.tables ++ [step.target],
      (f.rows.toList.flatMap fun row => extendRow row (matching row)).toArray⟩ := by
  have hne : ∀ id ∈ f.tables, id ≠ step.target := fun id hid => ne_of_mem_of_not_mem hid htarget
  have hhome : home ∈ f.tables := by simp [h.tables]
  have hjoined : ∀ t ∈ steps, t.target ∈ f.tables := by
    intro t ht
    rw [h.tables]
    exact List.mem_cons_of_mem _ (List.mem_map_of_mem ht)
  refine ⟨by simp [h.tables], ?_, ?_⟩
  · intro t ht
    rcases List.mem_append.1 ht with ht | ht
    · exact List.mem_append_left _ (h.sources t ht)
    · rw [List.mem_singleton.1 ht]
      exact List.mem_append_left _ hsource
  · intro row'
    simp only [List.mem_toArray, List.mem_flatMap, Array.mem_toList_iff, mem_extendRow]
    constructor
    · rintro ⟨row, hrow, hrow'⟩
      rcases (h.rows row).1 hrow with ⟨s, ⟨i, hi, hs⟩, hfollows, rfl⟩
      -- the assignment goes on to the new table, and its other tables stay where they are
      have hnew : ∀ o, db.Follows (Function.update s step.target o) step →
          row' = f.tables.map s ++ [o] → ∃ s : Assignment, (∃ i < size, s home = some i)
            ∧ (∀ t ∈ steps ++ [step], db.Follows s t)
            ∧ row' = (f.tables ++ [step.target]).map s := by
        rintro o hstep rfl
        refine ⟨Function.update s step.target o, ⟨i, hi, ?_⟩, ?_, (map_update htarget).symm⟩
        · rw [Function.update_of_ne (hne home hhome), hs]
        · intro t ht
          rcases List.mem_append.1 ht with ht | ht
          · rw [Database.follows_update (hne _ (h.sources t ht)) (hne _ (hjoined t ht))]
            exact hfollows t ht
          · rwa [List.mem_singleton.1 ht]
      rcases hrow' with ⟨j, hj, hrow'⟩ | ⟨hnone, hrow'⟩
      · refine hnew (some j) (Or.inl ⟨j, by simp, ?_⟩) hrow'
        rw [Database.matches_update (hne _ hsource)]
        exact (hmatching s j).1 hj
      · refine hnew none (Or.inr ⟨by simp, ?_⟩) hrow'
        intro j hj
        rw [Database.matches_update (hne _ hsource), ← hmatching, hnone] at hj
        simp at hj
    · rintro ⟨s, hs, hfollows, rfl⟩
      refine ⟨f.tables.map s, (h.rows _).2 ⟨s, hs, fun t ht => hfollows t (by simp [ht]), rfl⟩, ?_⟩
      rcases hfollows step (by simp) with ⟨j, hj, hmatches⟩ | ⟨hnone, hnot⟩
      · exact Or.inl ⟨j, (hmatching s j).2 hmatches, by simp [hj]⟩
      · refine Or.inr ⟨List.eq_nil_iff_forall_not_mem.2 ?_, by simp [hnone]⟩
        intro j hj
        exact hnot j ((hmatching s j).1 hj)

/-- **A join keeps the invariant.** -/
lemma Represents.join {db : Database} {home : TableId} {size : ℕ} {steps : List JoinStep}
    {f : Frame} (h : Represents db home size steps f) {step : JoinStep} {left right : Table}
    (hleft : db.tables[step.source]? = some left) (hright : db.tables[step.target]? = some right)
    (hsource : step.source ∈ f.tables) (htarget : step.target ∉ f.tables) :
    ∃ f', (Frame.join db none f step).Returns (.ok f')
      ∧ Represents db home size (steps ++ [step]) f' := by
  obtain ⟨slot, hslot, hget⟩ := exists_slot hsource
  refine ⟨_, ?_, h.extend hsource htarget fun s j => mem_matchesOf hleft hright hget⟩
  simp only [Frame.join, Database.table_eq_ok_iff.2 hleft, Database.table_eq_ok_iff.2 hright]
  refine (Traced.returns_answer _).bind_ok ((Traced.returns_answer _).bind_ok ?_)
  simp only [hslot, extendRows_none]
  exact Traced.Returns.after_emit _ (Traced.returns_pure _)

/-- A step of a plan that joins no table twice brings a new table. -/
lemma Represents.target_notMem {db : Database} {home : TableId} {size : ℕ}
    {done rest : List JoinStep} {step : JoinStep} {f : Frame} (h : Represents db home size done f)
    (hnodup : (home :: (done ++ step :: rest).map JoinStep.target).Nodup) :
    step.target ∉ f.tables := by
  rw [h.tables]
  rw [List.map_append, ← List.cons_append, List.nodup_append] at hnodup
  intro hmem
  exact hnodup.2.2 _ hmem _ (by simp) rfl

/-- Joins one after another. -/
lemma Represents.foldlM_join {db : Database} {home : TableId} {size : ℕ} {todo : List JoinStep} :
    ∀ {done : List JoinStep} {f : Frame}, Represents db home size done f →
      (home :: (done ++ todo).map JoinStep.target).Nodup →
      (∀ before t after, done ++ todo = before ++ t :: after →
        t.source ∈ home :: before.map JoinStep.target) →
      (∀ id ∈ home :: (done ++ todo).map JoinStep.target, ∃ t, db.tables[id]? = some t) →
      ∃ f', (todo.foldlM (Frame.join db none) f).Returns (.ok f')
        ∧ Represents db home size (done ++ todo) f' := by
  induction todo with
  | nil =>
    intro done f h _ _ _
    rw [List.append_nil]
    exact ⟨f, Traced.returns_pure f, h⟩
  | cons step rest ih =>
    intro done f h hnodup hsource hregistered
    have hearlier := hsource done step rest rfl
    have hsource' : step.source ∈ f.tables := by
      rwa [h.tables]
    have htarget := h.target_notMem hnodup
    have hmem : step.source ∈ home :: (done ++ step :: rest).map JoinStep.target := by
      rw [List.map_append, ← List.cons_append]
      exact List.mem_append_left _ hearlier
    obtain ⟨left, hleft⟩ := hregistered step.source hmem
    obtain ⟨right, hright⟩ := hregistered step.target (by simp)
    obtain ⟨f₁, hjoin, h₁⟩ := h.join hleft hright hsource' htarget
    have hassoc : done ++ [step] ++ rest = done ++ step :: rest := by simp
    rw [← hassoc] at hnodup hsource hregistered
    obtain ⟨f', hrest, h'⟩ := ih h₁ hnodup hsource hregistered
    rw [hassoc] at h'
    rw [List.foldlM_cons]
    exact ⟨f', hjoin.bind_ok hrest, h'⟩

end Frame

/-- **A plan that can be carried out gives the frame of all its steps.** -/
theorem JoinPlan.Runnable.exists_buildFrame {db : Database} {p : JoinPlan} (hp : p.Runnable)
    (hregistered : ∀ id ∈ p.tables, ∃ t, db.tables[id]? = some t) {home : Table}
    (hhome : db.tables[p.home]? = some home) :
    ∃ f, (db.buildFrame none p).Returns (.ok f)
      ∧ Frame.Represents db p.home home.rowCount p.steps f := by
  rcases (Frame.represents_ofHome db p.home home.rowCount).foldlM_join hp.nodup hp.source
    hregistered with ⟨f, hf, h⟩
  refine ⟨f, ?_, h⟩
  simp only [Database.buildFrame, Database.table_eq_ok_iff.2 hhome]
  exact (Traced.returns_answer _).bind_ok hf

end LinkedTables
