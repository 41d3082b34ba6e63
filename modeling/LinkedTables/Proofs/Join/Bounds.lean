import Mathlib
import LinkedTables.Proofs.Filter.Evaluation
import LinkedTables.Proofs.Join.Overflow

/-!
# Frames are read within their bounds

A joined row is a bare list, and which of its entries belongs to which table is kept apart from it.
A join writes one entry behind each row and gives the new table the next number (`Frame.slots`).
Nothing else keeps the two in step: if a table were joined once more, its number would be replaced
and no number would be new, so that the rows would be longer than the map has entries.

That does not happen because no plan joins a table twice (`nodup_of_plan`), and this is a matter of
the planner alone.  It is true of every schema, whether or not its relations lead to tables that are
there, and of every filter.  A row that is joined is one of its table, since the index has no other
rows.  So all the rows that are ever built are within their bounds (`Frame.InBounds`), and
evaluating a plan fails in three ways only (`Failure.OfEvaluation`).
-/

namespace LinkedTables

/-! ## Numbering the tables -/

namespace Frame

/-- The numbers of the tables of a frame, handed out as they are joined: a new table gets the number
of entries that there are. -/
def slots (tables : List TableId) : Std.HashMap TableId ℕ :=
  tables.foldl (fun slots id => slots.insert id slots.size) ∅

lemma slots_concat (tables : List TableId) (id : TableId) :
    slots (tables ++ [id]) = (slots tables).insert id (slots tables).size := by
  rw [slots, List.foldl_append]
  rfl

/-- **Each table has its place for a number**, if no table is joined twice. -/
lemma slots_of_nodup {tables : List TableId} (h : tables.Nodup) :
    (slots tables).size = tables.length
      ∧ ∀ (id : TableId) (k : ℕ), (slots tables)[id]? = some k ↔ tables[k]? = some id := by
  induction tables using List.reverseRecOn with
  | nil => simp [slots]
  | append_singleton tables new ih =>
    obtain ⟨hold, -, hnew⟩ := List.nodup_append.1 h
    obtain ⟨hsize, hslots⟩ := ih hold
    have hfresh : new ∉ tables := fun hmem => hnew new hmem new (by simp) rfl
    have hnone : new ∉ slots tables := by
      intro hmem
      obtain ⟨k, hk⟩ := Option.isSome_iff_exists.1 (Std.HashMap.isSome_getElem?_iff_mem.2 hmem)
      exact hfresh (List.mem_of_getElem? ((hslots new k).1 hk))
    rw [slots_concat]
    refine ⟨by simp [Std.HashMap.size_insert, hnone, hsize], fun id k => ?_⟩
    have hconcat : (tables ++ [new])[k]? = some id
        ↔ tables[k]? = some id ∨ (new = id ∧ tables.length = k) := by
      rw [List.getElem?_append]
      split_ifs with hk
      · simp [hk.ne']
      · have hnone : tables[k]? = none := List.getElem?_eq_none (not_lt.1 hk)
        have hzero : k - tables.length = 0 ↔ tables.length = k := by omega
        simp only [hnone, List.getElem?_singleton, hzero]
        by_cases hlast : tables.length = k <;> simp [hlast]
    rw [Std.HashMap.getElem?_insert, hsize, hconcat]
    by_cases hid : new = id
    · have hnot : tables[k]? ≠ some id := fun hmem => hfresh (hid ▸ List.mem_of_getElem? hmem)
      simp [hid, hnot]
    · simp [hid, hslots]

lemma slot?_eq_some_iff {f : Frame} (h : f.tables.Nodup) {id : TableId} {k : ℕ} :
    f.slot? id = some k ↔ f.tables[k]? = some id := by
  constructor
  · intro hslot
    obtain ⟨hlt, rfl, -⟩ := List.idxOf?_eq_some_iff.1 hslot
    exact List.getElem?_eq_getElem hlt
  · intro hget
    obtain ⟨slot, hslot, hget'⟩ := exists_slot (List.mem_of_getElem? hget)
    obtain ⟨hlt, -⟩ := List.getElem?_eq_some_iff.1 hget
    rw [hslot, (List.getElem?_inj hlt h).1 (hget.trans hget'.symm)]

end Frame

/-! ## Frames -/

namespace Frame

variable {db : Database} {home : TableId} {steps : List JoinStep} {f : Frame}

/-- The rows of a frame fit the numbers of its tables and the tables themselves. -/
structure InBounds (db : Database) (home : TableId) (f : Frame) : Prop where
  /-- the place of a table is the number that it got -/
  slots_eq : ∀ id : TableId, (slots f.tables)[id]? = f.slot? id
  lt_size : ∀ id k, f.slot? id = some k → k < (slots f.tables).size
  existsUnique : ∀ k < (slots f.tables).size, ∃! id, f.slot? id = some k
  width : ∀ row ∈ f.rows, row.length = (slots f.tables).size
  /-- the first entry is a row of the home table, and is never missing -/
  home : ∃ t, db.tables[home]? = some t
    ∧ ∀ row ∈ f.rows, ∃ i < t.rowCount, row.head? = some (some i)
  /-- each entry that is not missing is a row of its table -/
  positions : ∀ row ∈ f.rows, ∀ id k i, f.slot? id = some k → row[k]? = some (some i) →
    ∃ t, db.tables[id]? = some t ∧ i < t.rowCount

/-- A place that is found is there in every row. -/
lemma InBounds.lt_length (h : f.InBounds db home) {id : TableId} {k : ℕ}
    (hslot : f.slot? id = some k) {row : FrameRow} (hrow : row ∈ f.rows) : k < row.length := by
  rw [h.width row hrow]
  exact h.lt_size id k hslot

/-- An assignment that follows the steps stays within the tables. -/
lemma exists_lt_rowCount {t : Table} (ht : db.tables[home]? = some t) {s : Assignment}
    (hhome : ∃ i < t.rowCount, s home = some i) (hfollows : ∀ t ∈ steps, db.Follows s t)
    {id : TableId} (hid : id ∈ home :: steps.map JoinStep.target) {i : ℕ} (hi : s id = some i) :
    ∃ t, db.tables[id]? = some t ∧ i < t.rowCount := by
  rcases List.mem_cons.1 hid with rfl | hid
  · obtain ⟨j, hj, hs⟩ := hhome
    rw [hs] at hi
    cases hi
    exact ⟨t, ht, hj⟩
  · obtain ⟨u, hu, rfl⟩ := List.mem_map.1 hid
    rcases hfollows u hu with ⟨j, hj, -, right, -, hright, hlt, -⟩ | ⟨hnone, -⟩
    · rw [hj] at hi
      cases hi
      exact ⟨right, hright, hlt⟩
    · rw [hnone] at hi
      cases hi

/-- **The rows of a frame are within its bounds** if no table is joined twice. -/
lemma Represents.inBounds {t : Table} (h : Represents db home t.rowCount steps f)
    (hnodup : (home :: steps.map JoinStep.target).Nodup) (ht : db.tables[home]? = some t) :
    f.InBounds db home := by
  rw [← h.tables] at hnodup
  obtain ⟨hsize, hslots⟩ := slots_of_nodup hnodup
  have hslot : ∀ id k, f.slot? id = some k ↔ f.tables[k]? = some id :=
    fun id k => slot?_eq_some_iff hnodup
  refine ⟨fun id => ?_, fun id k hk => ?_, fun k hk => ?_, fun row hrow => ?_, ⟨t, ht, ?_⟩, ?_⟩
  · exact Option.ext fun k => (hslots id k).trans (hslot id k).symm
  · rw [hsize]
    exact (List.getElem?_eq_some_iff.1 ((hslot id k).1 hk)).1
  · rw [hsize] at hk
    refine ⟨f.tables[k], (hslot _ k).2 (List.getElem?_eq_getElem hk), fun id hid => ?_⟩
    exact (List.getElem?_eq_some_iff.1 ((hslot id k).1 hid)).2.symm
  · obtain ⟨s, -, -, rfl⟩ := (h.rows row).1 hrow
    rw [List.length_map, hsize]
  · intro row hrow
    obtain ⟨s, ⟨i, hi, hs⟩, -, rfl⟩ := (h.rows row).1 hrow
    exact ⟨i, hi, by simp [h.tables, hs]⟩
  · intro row hrow id k i hk hi
    obtain ⟨s, hs, hfollows, rfl⟩ := (h.rows row).1 hrow
    have hget := (hslot id k).1 hk
    have hid : id ∈ home :: steps.map JoinStep.target := h.tables ▸ List.mem_of_getElem? hget
    rw [List.getElem?_map, hget] at hi
    exact exists_lt_rowCount ht hs hfollows hid (Option.some.inj hi)

end Frame

/-! ## Failures -/

/-- What evaluating a plan can fail with. -/
inductive Failure.OfEvaluation (limit : Option ℕ) : Failure → Prop
  | unknownTable (id : TableId) : OfEvaluation limit (.unknownTable id)
  | unreachableTable (name : String) : OfEvaluation limit (.unreachableTable name)
  | frameTooLarge {rows most : ℕ} (hlimit : limit = some most) (hlt : most < rows) :
    OfEvaluation limit (.frameTooLarge rows most)

namespace Database

variable {db : Database} {limit : Option ℕ} {p : JoinPlan} {f : Frame} {step : JoinStep}
  {x : Failure}

lemma ofEvaluation_of_table {id : TableId} (h : db.table id = .error x) :
    x.OfEvaluation limit := by
  rw [table_error h]
  exact .unknownTable id

lemma ofEvaluation_of_join (h : (f.join db limit step).result = .error x) :
    x.OfEvaluation limit := by
  rw [(Frame.join_returns db limit f step).result] at h
  rcases eq_error_of_bind h with h | ⟨left, -, h⟩
  · exact ofEvaluation_of_table h
  rcases eq_error_of_bind h with h | ⟨right, -, h⟩
  · exact ofEvaluation_of_table h
  split at h
  · cases h
    exact .unknownTable _
  · split at h
    · rename_i hrows
      cases h
      obtain ⟨hlimit, hlt, -⟩ := Frame.extendRows_error hrows
      exact .frameTooLarge hlimit hlt
    · cases h

lemma ofEvaluation_of_buildFrame (h : (db.buildFrame limit p).result = .error x) :
    x.OfEvaluation limit := by
  rcases exists_of_buildFrame_error h with h | ⟨k, hk, g, -, h⟩
  · exact ofEvaluation_of_table h
  · exact ofEvaluation_of_join h

lemma ofEvaluation_of_locate {c : BoundColumn} (h : db.locate p f c = .error x) :
    x.OfEvaluation limit := by
  simp only [locate] at h
  rcases eq_error_of_bind h with h | ⟨t, -, h⟩
  · exact ofEvaluation_of_table h
  · split at h
    · cases h
    · cases h
      exact .unreachableTable _

/-- A column is read at the place of its table. -/
lemma slot?_of_locate {c : BoundColumn} {source : CellSource}
    (h : db.locate p f c = .ok source) : f.slot? c.table = some source.slot := by
  simp only [locate] at h
  obtain ⟨t, -, h⟩ := eq_ok_of_bind h
  split at h
  · cases h
    assumption
  · cases h

/-- **An evaluation ends with an answer or in one of three failures.**  There is always one mark for
each row of the home table, so that the marked rows can be selected. -/
theorem evaluate_ok_or_error (db : Database) (limit : Option ℕ) (p : JoinPlan)
    (e : Expr BoundColumn) : (∃ t, (db.evaluate limit p e).result = .ok t)
      ∨ ∃ x, (db.evaluate limit p e).result = .error x ∧ x.OfEvaluation limit := by
  rw [(db.evaluate_returns limit p e).result]
  cases hresult : (do
      let home ← db.table p.home
      let frame ← (db.buildFrame limit p).result
      let located ← e.mapColumnsM (db.locate p frame)
      home.select (marks home.rowCount frame.rows.toList located)) with
  | ok t => exact Or.inl ⟨t, rfl⟩
  | error x =>
    refine Or.inr ⟨x, rfl, ?_⟩
    rcases eq_error_of_bind hresult with h | ⟨home, -, h⟩
    · exact ofEvaluation_of_table h
    rcases eq_error_of_bind h with h | ⟨frame, -, h⟩
    · exact ofEvaluation_of_buildFrame h
    rcases eq_error_of_bind h with h | ⟨located, -, h⟩
    · obtain ⟨c, -, h⟩ := Expr.exists_of_mapColumnsM_error h
      exact ofEvaluation_of_locate h
    · rw [Table.select_eq_restrict (length_marks ..)] at h
      cases h

/-- Whatever a plan has built by one of its steps is within its bounds. -/
lemma inBounds_of_buildFrame (hp : p.tables.Nodup) (k : ℕ)
    (h : (db.buildFrame limit (p.take k)).result = .ok f) :
    f.tables = (p.take k).tables ∧ f.InBounds db p.home := by
  have htake : (p.take k).tables.Nodup :=
    hp.sublist (((List.take_sublist k p.steps).map JoinStep.target).cons_cons p.home)
  obtain ⟨t, ht, hrep⟩ := represents_of_buildFrame htake (buildFrame_limit_iff.1 h).1
  exact ⟨hrep.tables, hrep.inBounds htake ht⟩

end Database

/-! ## Plans -/

/-- **Nothing is read or written out of bounds**, whatever the schema, the tables, the filter and
the limit are.  No table is joined twice, so that each frame on the way is within its bounds, and
the place of a table is there in every row.  So are the places at which the columns of a filter are
read, and the row of the home table in front has a mark.  An evaluation ends with an answer or in
one of three failures. -/
theorem inBounds_of_plan {db : Database} {home : TableId} {f : BoundFilter} {p : JoinPlan}
    (hp : db.schema.plan home f = .ok p) :
    p.tables.Nodup
      ∧ ∀ limit,
        (∀ k frame, (db.buildFrame limit (p.take k)).result = .ok frame →
          frame.tables = (p.take k).tables ∧ frame.InBounds db home
            ∧ ∀ id slot, frame.slot? id = some slot → ∀ row ∈ frame.rows, slot < row.length)
        ∧ ∀ e, (∀ t frame located, db.tables[home]? = some t →
            (db.buildFrame limit p).result = .ok frame →
            e.mapColumnsM (db.locate p frame) = .ok located →
            ∀ row ∈ frame.rows, (∀ c ∈ located.columns, c.slot < row.length)
              ∧ ∃ i < (Database.marks t.rowCount frame.rows.toList located).length,
                row.head? = some (some i))
          ∧ ((∃ t, (db.evaluate limit p e).result = .ok t)
            ∨ ∃ x, (db.evaluate limit p e).result = .error x ∧ x.OfEvaluation limit) := by
  have hnodup := nodup_of_plan hp
  obtain rfl := home_of_plan hp
  refine ⟨hnodup, fun limit => ⟨fun k frame hframe => ?_, fun e => ⟨?_, ?_⟩⟩⟩
  · obtain ⟨htables, hbounds⟩ := Database.inBounds_of_buildFrame hnodup k hframe
    exact ⟨htables, hbounds, fun id slot hslot row hrow => hbounds.lt_length hslot hrow⟩
  · intro t frame located ht hframe hlocated row hrow
    have hwhole : p.take p.steps.length = p := by simp [JoinPlan.take]
    rw [← hwhole] at hframe
    obtain ⟨-, hbounds⟩ := Database.inBounds_of_buildFrame hnodup _ hframe
    constructor
    · intro c hc
      obtain ⟨column, -, hlocate⟩ := Expr.exists_of_mapColumnsM hlocated c hc
      exact hbounds.lt_length (Database.slot?_of_locate hlocate) hrow
    · obtain ⟨t', ht', hhead⟩ := hbounds.home
      rw [ht] at ht'
      cases ht'
      rw [Database.length_marks]
      exact hhead row hrow
  · exact db.evaluate_ok_or_error limit p e

/-- Two tables, of which the first one has a relation that leads nowhere. -/
def dangling : Database :=
  ⟨⟨#[⟨"h", [⟨0, "o", 1, "k", "k"⟩, ⟨0, "lost", 7, "k", "k"⟩]⟩, ⟨"o", []⟩]⟩,
    #[⟨[⟨"k", #[.integer 1, .integer 2]⟩], #[0, 1]⟩,
      ⟨[⟨"k", #[.integer 1, .integer 1]⟩, ⟨"y", #[.integer 5, .integer 7]⟩], #[0, 1]⟩]⟩

/-- A plan over both relations builds the rows of the first one, and stops at the table that is not
there. -/
theorem inBounds_of_plan_dangling :
    ∃ f p frame, (∀ t ∈ dangling.tables, t.Rectangular) ∧ dangling.schema.plan 0 f = .ok p
      ∧ p.tables = [0, 1, 7] ∧ p.tables.Nodup
      ∧ (dangling.buildFrame none (p.take 1)).result = .ok frame
      ∧ frame.rows = #[[some 0, some 0], [some 0, some 1], [some 1, none]]
      ∧ frame.InBounds dangling 0
      ∧ (dangling.evaluate none p f.expr).result = .error (.unknownTable 7)
      ∧ ∃ x, (dangling.evaluate none p f.expr).result = .error x ∧ x.OfEvaluation none := by
  let f : BoundFilter :=
    ⟨.and [.compare ⟨1, "y"⟩ .eq (.integer 5), .compare ⟨7, "z"⟩ .eq (.integer 5)], []⟩
  let p : JoinPlan := ⟨0, [⟨0, "o", 1, "k", "k", 1⟩, ⟨0, "lost", 7, "k", "k", 1⟩], #["h", "o"]⟩
  let frame : Frame := ⟨[0, 1], #[[some 0, some 0], [some 0, some 1], [some 1, none]]⟩
  have h : dangling.schema.plan 0 f = .ok p
      ∧ (dangling.buildFrame none (p.take 1)).result = .ok frame
      ∧ (dangling.evaluate none p f.expr).result = .error (.unknownTable 7) :=
    ⟨by cbv, by cbv, by cbv⟩
  obtain ⟨hplan, hframe, hfails⟩ := h
  have hrectangular : ∀ t ∈ dangling.tables, t.Rectangular := by
    simp [dangling, Table.Rectangular, Table.rowCount]
  obtain ⟨hnodup, hlimit⟩ := inBounds_of_plan hplan
  obtain ⟨hbounds, hends⟩ := hlimit none
  refine ⟨f, p, frame, hrectangular, hplan, rfl, hnodup, hframe, rfl, (hbounds 1 frame hframe).2.1,
    hfails, ?_⟩
  rcases (hends f.expr).2 with ⟨t, hok⟩ | herror
  · rw [hfails] at hok
    cases hok
  · exact herror

end LinkedTables
