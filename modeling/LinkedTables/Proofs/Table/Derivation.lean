import Mathlib
import LinkedTables.Proofs.Table.Construction
import LinkedTables.Proofs.Traced

/-!
# Tables made from tables

A table is built once and then narrowed, by selecting rows and choosing columns, any number of times
and in any order (`Table.Derives`).  Cells, names and identities of rows are narrowed separately,
and this file says that they stay together.

* **A derived table is a part of the table that it comes from** (`Table.PartOf`).  The identity of a
  row is the place that it had there, and the cells of the row are those of this place.  This is so
  for a table without columns too, of whose rows nothing but the identities is left.
* **A derived table is as well formed as one that is built** (`Table.WellFormed`).
* **The order of steps does not matter, and steps of a kind are one step.**  These laws hold for
  every table, whether well formed or not, because a selection does the same to each column and a
  choice of columns does nothing to the rows (`choose_restrict`, `choose_choose`,
  `markedRows_composeMarks`).
-/

namespace LinkedTables.Table

variable {s t t' : Table} {rows : List ℕ} {mask more : List Bool} {names names' : List String}

/-! ## Selecting rows -/

/-- What a selection succeeds with. -/
lemma select_eq_ok_iff :
    t.select mask = .ok t' ↔ mask.length = t.rowCount ∧ t' = t.restrict (markedRows mask) := by
  constructor
  · intro h
    have hlength : mask.length = t.rowCount := by
      by_contra hne
      simp [select, hne] at h
    rw [select_eq_restrict hlength, Except.ok.injEq] at h
    exact ⟨hlength, h.symm⟩
  · rintro ⟨hlength, rfl⟩
    exact select_eq_restrict hlength

lemma lt_rowCount_of_mem_markedRows (h : mask.length = t.rowCount) :
    ∀ i ∈ markedRows mask, i < t.rowCount := by
  intro i hi
  rw [← h]
  exact (List.getElem?_eq_some_iff.1 (mem_markedRows.1 hi)).1

@[simp] lemma columnNames_restrict : (t.restrict rows).columnNames = t.columnNames := by
  simp [columnNames, restrict, Function.comp_def]

/-- The identity of a selected row is the one that it had. -/
lemma rowIds_restrict (h : rows.Pairwise (· < ·)) (i : ℕ) :
    (t.restrict rows).rowIds[i]? = rows[i]?.bind fun j => t.rowIds[j]? := by
  rw [restrict, List.getElem?_toArray, getElem?_filterMap_getElem? h]

/-! ## Selecting twice -/

/-- The mark of a row is as many true marks behind the first one as there are before the row. -/
lemma getElem?_markedRows : ∀ {i j : ℕ}, (markedRows mask)[j]? = some i
    ↔ mask[i]? = some true ∧ j = (mask.take i).count true := by
  induction mask with
  | nil => simp [markedRows]
  | cons mark rest ih =>
    intro i j
    rw [markedRows_cons]
    cases mark with
    | false =>
      cases i with
      | zero => simp
      | succ i => simp [ih]
    | true =>
      cases i with
      | zero => cases j <;> simp
      | succ i => cases j <;> simp [ih]

lemma length_markedRows : (markedRows mask).length = mask.count true := by
  induction mask with
  | nil => rfl
  | cons mark rest ih => cases mark <;> simp [markedRows_cons, ih]

/-- The marks that are true where `mask` is true and `more`, which has one mark for each of these
places, keeps the place. -/
def composeMarks (mask more : List Bool) : List Bool :=
  mask.mapIdx fun i mark => mark && more.getD ((mask.take i).count true) false

@[simp] lemma length_composeMarks : (composeMarks mask more).length = mask.length := by
  simp [composeMarks]

lemma getElem?_composeMarks {i : ℕ} : (composeMarks mask more)[i]? = some true
    ↔ mask[i]? = some true ∧ more[(mask.take i).count true]? = some true := by
  rw [composeMarks, List.getElem?_mapIdx, List.getD_eq_getElem?_getD]
  cases mask[i]? <;> cases more[(mask.take i).count true]? <;> simp

/-- The rows marked by composed marks are the marked ones of the marked rows. -/
lemma markedRows_composeMarks :
    markedRows (composeMarks mask more) = (markedRows more).filterMap ((markedRows mask)[·]?) := by
  refine (pairwise_markedRows _).eq_of_mem_iff
    (pairwise_filterMap_getElem? (pairwise_markedRows _) (pairwise_markedRows _)) fun i => ?_
  rw [mem_markedRows, getElem?_composeMarks, List.mem_filterMap]
  simp only [mem_markedRows, getElem?_markedRows]
  constructor
  · rintro ⟨hmask, hmore⟩
    exact ⟨_, hmore, hmask, rfl⟩
  · rintro ⟨j, hmore, hmask, rfl⟩
    exact ⟨hmask, hmore⟩

/-! ## Choosing columns -/

/-- The columns of the given names, as far as there are such, with all rows. -/
def choose (t : Table) (names : List String) : Table := ⟨names.filterMap t.column?, t.rowIds⟩

lemma name_of_column? {c : Column} {name : String} (h : t.column? name = some c) :
    c.name = name := by
  simpa using List.find?_some h

/-- Entries that are each found or not are found together if each is. -/
lemma mapM_eq_ok_iff {ε α β : Type} {f : α → Except ε β} {g : α → Option β}
    (h : ∀ a b, f a = .ok b ↔ g a = some b) {as : List α} :
    ∀ {bs : List β}, as.mapM f = .ok bs
      ↔ (∀ a ∈ as, (g a).isSome = true) ∧ bs = as.filterMap g := by
  induction as with
  | nil =>
    intro bs
    rw [List.mapM_nil, List.filterMap_nil, eq_comm (a := bs)]
    simp [pure, Except.pure]
  | cons a rest ih =>
    intro bs
    rw [List.mapM_cons, List.forall_mem_cons, eq_comm (a := bs)]
    cases hf : f a with
    | error x =>
      have hg : g a = none := Option.eq_none_iff_forall_ne_some.2 fun b hb => by
        simp [(h a b).2 hb] at hf
      simp [bind, Except.bind, hg]
    | ok b =>
      have hg : g a = some b := (h a b).1 hf
      cases hrest : rest.mapM f with
      | error x =>
        have hnone : ¬ ∀ a ∈ rest, (g a).isSome = true := fun hall => by
          simp [ih.2 ⟨hall, rfl⟩] at hrest
        simp only [hnone, bind, Except.bind, false_and, and_false, reduceCtorEq]
      | ok bs' =>
        obtain ⟨hall, rfl⟩ := ih.1 hrest
        simpa [bind, Except.bind, pure, Except.pure, hg] using fun _ => hall

/-- What a choice of columns succeeds with. -/
lemma project_eq_ok_iff : t.project names = .ok t'
    ↔ (∀ name ∈ names, t.hasColumn name = true) ∧ names.Nodup ∧ t' = t.choose names := by
  obtain ⟨find, hfind, hproject⟩ : ∃ find : String → Except Failure Column,
      (∀ name c, find name = .ok c ↔ t.column? name = some c)
        ∧ t.project names = (do
          let columns ← names.mapM find
          checkNames names
          pure ⟨columns, t.rowIds⟩) := by
    refine ⟨_, fun name c => ?_, rfl⟩
    cases t.column? name <;> simp
  rw [hproject]
  constructor
  · intro h
    obtain ⟨columns, hcolumns, h⟩ := eq_ok_of_bind h
    obtain ⟨_, hnames, h⟩ := eq_ok_of_bind h
    obtain ⟨hall, rfl⟩ := (mapM_eq_ok_iff hfind).1 hcolumns
    cases h
    exact ⟨hall, checkNames_eq_ok_iff.1 hnames, rfl⟩
  · rintro ⟨hall, hnames, rfl⟩
    rw [(mapM_eq_ok_iff hfind).2 ⟨hall, rfl⟩, checkNames_eq_ok_iff.2 hnames]
    rfl

lemma columnNames_choose (h : ∀ name ∈ names, t.hasColumn name = true) :
    (t.choose names).columnNames = names := by
  have hname : ∀ name ∈ names, (t.column? name).map Column.name = some name := by
    intro name hname
    obtain ⟨c, hc⟩ := Option.isSome_iff_exists.1 (h name hname)
    rw [hc, Option.map_some, name_of_column? hc]
  rw [columnNames, choose, List.map_filterMap, List.filterMap_congr hname, List.filterMap_some]

lemma find?_beq (name : String) :
    names.find? (· == name) = if name ∈ names then some name else none := by
  induction names with
  | nil => rfl
  | cons head rest ih =>
    by_cases hhead : head = name
    · simp [hhead]
    · simp [hhead, Ne.symm hhead, ih]

/-- A chosen column is the one that was there. -/
lemma column?_choose (h : ∀ name ∈ names, t.hasColumn name = true) (name : String) :
    (t.choose names).column? name = if name ∈ names then t.column? name else none := by
  have hfound : ∀ name' ∈ names, (t.column? name').any (·.name == name) = (name' == name) := by
    intro name' hname'
    obtain ⟨c, hc⟩ := Option.isSome_iff_exists.1 (h name' hname')
    rw [hc, Option.any_some, name_of_column? hc]
  rw [column?, choose, List.find?_filterMap, List.find?_congr hfound, find?_beq]
  split_ifs <;> rfl

lemma hasColumn_choose (h : ∀ name ∈ names, t.hasColumn name = true) {name : String} :
    (t.choose names).hasColumn name = true ↔ name ∈ names := by
  rw [hasColumn, column?_choose h]
  split_ifs with hname
  · exact iff_of_true (h name hname) hname
  · simp [hname]

/-! ## Laws -/

/-- A selection does the same to each column. -/
lemma choose_restrict : (t.restrict rows).choose names = (t.choose names).restrict rows := by
  have hcolumns : names.filterMap (t.restrict rows).column? = (names.filterMap t.column?).map
      fun c => ⟨c.name, (rows.filterMap (c.cells[·]?)).toArray⟩ := by
    rw [List.map_filterMap]
    exact List.filterMap_congr fun name _ => column?_restrict name
  rw [choose, hcolumns]
  rfl

lemma choose_choose (h : ∀ name ∈ names, t.hasColumn name = true) (hsub : names' ⊆ names) :
    (t.choose names).choose names' = t.choose names' := by
  have hcolumns : names'.filterMap (t.choose names).column? = names'.filterMap t.column? :=
    List.filterMap_congr fun name hname => by rw [column?_choose h, if_pos (hsub hname)]
  rw [choose, hcolumns]
  rfl

/-- **Rows and columns can be narrowed in either order.** -/
lemma select_project : (do (← t.select mask).project names) = .ok t'
    ↔ (do (← t.project names).select mask) = .ok t' := by
  simp only [bind_eq_ok_iff, select_eq_ok_iff, project_eq_ok_iff]
  constructor
  · rintro ⟨_, ⟨hlength, rfl⟩, hall, hnames, rfl⟩
    exact ⟨_, ⟨by simpa using hall, hnames, rfl⟩, hlength, choose_restrict⟩
  · rintro ⟨_, ⟨hall, hnames, rfl⟩, hlength, rfl⟩
    exact ⟨_, ⟨hlength, rfl⟩, by simpa using hall, hnames, choose_restrict.symm⟩

/-- **The last choice of columns counts**, if it is among those chosen before. -/
lemma project_project (h : t.project names = .ok s) :
    s.project names' = .ok t' ↔ names' ⊆ names ∧ t.project names' = .ok t' := by
  obtain ⟨hall, -, rfl⟩ := project_eq_ok_iff.1 h
  simp only [project_eq_ok_iff, hasColumn_choose hall]
  constructor
  · rintro ⟨hsub, hnames, rfl⟩
    exact ⟨hsub, fun name hname => hall name (hsub name hname), hnames, choose_choose hall hsub⟩
  · rintro ⟨hsub, -, hnames, rfl⟩
    exact ⟨hsub, hnames, (choose_choose hall hsub).symm⟩

/-- **Two selections are one.** -/
lemma select_select (h : t.select mask = .ok s) : s.select more = .ok t'
    ↔ more.length = mask.count true ∧ t.select (composeMarks mask more) = .ok t' := by
  obtain ⟨hlength, rfl⟩ := select_eq_ok_iff.1 h
  have hcount : (t.restrict (markedRows mask)).rowCount = mask.count true := by
    rw [rowCount_restrict (lt_rowCount_of_mem_markedRows hlength), length_markedRows]
  rw [select_eq_ok_iff, select_eq_ok_iff, hcount, restrict_restrict (pairwise_markedRows mask),
    markedRows_composeMarks, length_composeMarks, and_iff_right hlength]

/-! ## What every step keeps -/

/-- A table has distinct columns, with a cell in each row, and the identities of its rows rise. -/
structure WellFormed (t : Table) : Prop where
  names : t.columnNames.Nodup
  cells : t.Rectangular
  rowIds : t.rowIds.toList.Pairwise (· < ·)

/-- Each name has one column. -/
lemma WellFormed.existsUnique_column (h : t.WellFormed) {name : String}
    (hname : name ∈ t.columnNames) : ∃! c, c ∈ t.columns ∧ c.name = name := by
  obtain ⟨c, hc, rfl⟩ := List.mem_map.1 hname
  exact ⟨c, ⟨hc, rfl⟩, fun c' ⟨hc', heq⟩ => List.inj_on_of_nodup_map h.names hc' hc heq⟩

/-- The columns of a table are some of those of another, and a row is the one of the other table at
the place that its identity says. -/
structure PartOf (t s : Table) : Prop where
  columnNames : t.columnNames ⊆ s.columnNames
  rows : ∀ i id : ℕ, t.rowIds[i]? = some id →
    id < s.rowCount ∧ ∀ name ∈ t.columnNames, t.cell? i name = s.cell? id name

lemma WellFormed.restrict (ht : t.WellFormed) (h : rows.Pairwise (· < ·))
    (hlt : ∀ i ∈ rows, i < t.rowCount) : (t.restrict rows).WellFormed := by
  refine ⟨by simpa using ht.names, ht.cells.restrict hlt, ?_⟩
  have hids := pairwise_filterMap_getElem? ht.rowIds h
  simpa [Table.restrict] using hids

lemma PartOf.restrict (ht : t.PartOf s) (h : rows.Pairwise (· < ·)) :
    (t.restrict rows).PartOf s := by
  refine ⟨by simpa using ht.columnNames, fun i id hid => ?_⟩
  rw [rowIds_restrict h] at hid
  obtain ⟨j, hj, hid⟩ := Option.bind_eq_some_iff.1 hid
  obtain ⟨hlt, hcells⟩ := ht.rows j id hid
  refine ⟨hlt, fun name hname => ?_⟩
  rw [cell?_restrict h, hj, Option.bind_some]
  exact hcells name (by simpa using hname)

lemma WellFormed.choose (ht : t.WellFormed) (h : ∀ name ∈ names, t.hasColumn name = true)
    (hnames : names.Nodup) : (t.choose names).WellFormed := by
  refine ⟨by rwa [columnNames_choose h], fun c hc => ?_, ht.rowIds⟩
  obtain ⟨name, -, hc⟩ := List.mem_filterMap.1 hc
  exact ht.cells c (List.mem_of_find?_eq_some hc)

lemma PartOf.choose (ht : t.PartOf s) (h : ∀ name ∈ names, t.hasColumn name = true) :
    (t.choose names).PartOf s := by
  have hsub : names ⊆ t.columnNames := by
    intro name hname
    obtain ⟨c, hc⟩ := Option.isSome_iff_exists.1 (h name hname)
    rw [← name_of_column? hc]
    exact List.mem_map_of_mem (List.mem_of_find?_eq_some hc)
  have hcell : ∀ i, ∀ name ∈ names, (t.choose names).cell? i name = t.cell? i name := by
    intro i name hname
    rw [cell?, column?_choose h, if_pos hname, ← cell?]
  refine ⟨?_, fun i id hid => ?_⟩
  · rw [columnNames_choose h]
    exact List.Subset.trans hsub ht.columnNames
  · obtain ⟨hlt, hcells⟩ := ht.rows i id hid
    refine ⟨hlt, fun name hname => ?_⟩
    rw [columnNames_choose h] at hname
    rw [hcell i name hname, hcells name (hsub hname)]

/-! ## Tables that are built -/

/-- A table comes from one of the two constructors. -/
def Built (t : Table) : Prop :=
  (∃ names rows, ofRows names rows = .ok t) ∨ ∃ columns, ofColumns columns = .ok t

lemma Built.ofColumns_eq (h : s.Built) : ofColumns s.columns = .ok s := by
  rcases h with ⟨names, rows, h⟩ | ⟨columns, h⟩
  · exact ofColumns_of_ofRows h
  · obtain ⟨-, -, rfl⟩ := ofColumns_eq_ok_iff.1 h
    exact h

/-- The rows of a table that is built are numbered. -/
lemma Built.rowIds_eq (h : s.Built) : s.rowIds = Array.range s.rowCount := by
  obtain ⟨-, -, hfresh⟩ := ofColumns_eq_ok_iff.1 h.ofColumns_eq
  rw [hfresh, rowIds_fresh]

lemma Built.wellFormed (h : s.Built) : s.WellFormed := by
  obtain ⟨hnames, hcells, hfresh⟩ := ofColumns_eq_ok_iff.1 h.ofColumns_eq
  refine ⟨hnames, hfresh ▸ hcells, ?_⟩
  rw [h.rowIds_eq, Array.toList_range]
  exact List.pairwise_lt_range

lemma Built.partOf_self (h : s.Built) : s.PartOf s := by
  refine ⟨List.Subset.refl _, fun i id hid => ?_⟩
  rw [h.rowIds_eq, Array.getElem?_range] at hid
  split_ifs at hid with hlt
  cases hid
  exact ⟨hlt, fun _ _ => rfl⟩

/-- A table comes from another one by selections of rows and choices of columns. -/
inductive Derives (s : Table) : Table → Prop
  | refl : Derives s s
  | select {t t' : Table} (h : Derives s t) (mask : List Bool) (ht : t.select mask = .ok t') :
    Derives s t'
  | project {t t' : Table} (h : Derives s t) (names : List String)
    (ht : t.project names = .ok t') : Derives s t'

/-- **Every step keeps** the table well formed and a part of the table that it comes from. -/
lemma Derives.wellFormed_and_partOf (hs : s.Built) (h : s.Derives t) :
    t.WellFormed ∧ t.PartOf s := by
  induction h with
  | refl => exact ⟨hs.wellFormed, hs.partOf_self⟩
  | select _ mask ht ih =>
    obtain ⟨hwell, hpart⟩ := ih
    obtain ⟨hlength, rfl⟩ := select_eq_ok_iff.1 ht
    have hsorted := pairwise_markedRows mask
    exact ⟨hwell.restrict hsorted (lt_rowCount_of_mem_markedRows hlength), hpart.restrict hsorted⟩
  | project _ names ht ih =>
    obtain ⟨hwell, hpart⟩ := ih
    obtain ⟨hall, hnames, rfl⟩ := project_eq_ok_iff.1 ht
    exact ⟨hwell.choose hall hnames, hpart.choose hall⟩

/-- **Selections and choices of columns.**  What is derived from a table that was built is well
formed and a part of it, and has one column of each of its names.  The rows and the columns of any
table can be narrowed in either order, a second choice of columns replaces the first one, and two
selections are the one whose marks are true where the second keeps what the first has kept. -/
theorem partOf_of_derives :
    (∀ s t : Table, s.Built → s.Derives t → t.WellFormed ∧ t.PartOf s
        ∧ ∀ name ∈ t.columnNames, ∃! c, c ∈ t.columns ∧ c.name = name)
      ∧ ∀ (t : Table) (mask more : List Bool) (names names' : List String) (u : Table),
        ((do (← t.select mask).project names) = .ok u
            ↔ (do (← t.project names).select mask) = .ok u)
          ∧ (∀ s, t.project names = .ok s →
            (s.project names' = .ok u ↔ names' ⊆ names ∧ t.project names' = .ok u))
          ∧ ∀ s, t.select mask = .ok s →
            (s.select more = .ok u
              ↔ more.length = mask.count true ∧ t.select (composeMarks mask more) = .ok u) := by
  refine ⟨fun s t hs h => ?_, fun t mask more names names' u => ⟨select_project, ?_, ?_⟩⟩
  · obtain ⟨hwell, hpart⟩ := h.wellFormed_and_partOf hs
    exact ⟨hwell, hpart, fun name hname => hwell.existsUnique_column hname⟩
  · exact fun s h => project_project h
  · exact fun s h => select_select h

/-- A table of three persons. -/
def people : Table :=
  ⟨[⟨"id", #[.integer 1, .integer 2, .integer 3]⟩,
      ⟨"name", #[.text "Ann", .text "Ben", .text "Cid"]⟩,
      ⟨"age", #[.integer 34, .integer 51, .null]⟩], #[0, 1, 2]⟩

/-- The last two persons with two of their columns, and then without columns, are still the rows
`1` and `2`; both laws of steps of a kind are used on the whole table. -/
theorem partOf_of_derives_people :
    ∃ t empty, people.Built ∧ people.Derives t ∧ t.columnNames = ["age", "id"]
      ∧ people.Derives empty ∧ empty.columnNames = [] ∧ empty.rowIds = #[1, 2]
      ∧ (t.WellFormed ∧ t.PartOf people ∧ ∃! c, c ∈ t.columns ∧ c.name = "age")
      ∧ (empty.WellFormed ∧ empty.PartOf people)
      ∧ (∃ s u, people.project ["age", "id"] = .ok s ∧ s.project ["id"] = .ok u
        ∧ people.project ["id"] = .ok u)
      ∧ ∃ s u, people.select [false, true, true] = .ok s ∧ s.select [false, true] = .ok u
        ∧ people.select [false, false, true] = .ok u := by
  obtain ⟨hderived, hlaws⟩ := partOf_of_derives
  have hbuilt : people.Built := Or.inr ⟨people.columns, rfl⟩
  have hselected := (Derives.refl (s := people)).select [false, true, true] rfl
  have ht := hselected.project ["age", "id"] rfl
  have hempty := ht.project [] rfl
  obtain ⟨hwell, hpart, hcolumn⟩ := hderived _ _ hbuilt ht
  obtain ⟨hwell', hpart', -⟩ := hderived _ _ hbuilt hempty
  obtain ⟨-, hproject, -⟩ := hlaws people [] [] ["age", "id"] ["id"] _
  obtain ⟨-, -, hselect⟩ := hlaws people [false, true, true] [false, true] [] [] _
  exact ⟨_, _, hbuilt, ht, rfl, hempty, rfl, rfl, ⟨hwell, hpart, hcolumn "age" (by decide)⟩,
    ⟨hwell', hpart'⟩, ⟨_, _, rfl, rfl, ((hproject _ rfl).1 rfl).2⟩,
    ⟨_, _, rfl, rfl, ((hselect _ rfl).1 rfl).2⟩⟩

end LinkedTables.Table
