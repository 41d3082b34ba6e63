import Mathlib
import LinkedTables.Proofs.Catalog.Declarations
import LinkedTables.Proofs.Workspace.Calls

/-!
# Workspaces are isolated, and handles are stable

A handle has nothing but a workspace and the number of a table, and such numbers are the same in all
workspaces.  `Workspaces.Coherent` says what holds nevertheless, at any time and whatever is called
from then on, through whichever workspaces, clones and handles:

* **Isolation.**  What is replied through a workspace is what would be replied if nobody had called
  through another one.  A relation between two workspaces is refused and changes neither.
* **Sharing.**  A workspace is what the calls through it have made of it, so all of its clones and
  handles see the tables, relations and settings that any of them has set.
* **Stability.**  A handle keeps the name and the table that it was registered with.

Isolation is a statement about two runs.  `Agree` relates the states of both: they are as many
workspaces, and one of them has the same catalog.  A call that concerns this workspace is replied to
alike in both runs, and a call that does not is made in one of them only.
-/

namespace LinkedTables

namespace Schema

variable {s : Schema} {name : String} {id : TableId}

lemma tableName?_of_tableId? (h : s.tableId? name = some id) : s.tableName? id = some name := by
  obtain ⟨hlt, hname, -⟩ := Array.findIdx?_eq_some_iff_getElem.1 h
  simpa [tableName?, hlt] using hname

end Schema

namespace Workspaces

variable {ws ws' : Workspaces} {w : Workspace} {h : TableHandle} {name : String} {t : Table}
  {call : Call}

/-! ## Isolation -/

/-- Two states have as many workspaces, and the same catalog for one of them. -/
structure Agree (w : Workspace) (ws ws' : Workspaces) : Prop where
  size : ws'.catalogs.size = ws.catalogs.size
  catalog : ws'.catalog w = ws.catalog w

lemma concerns_iff :
    call.concerns w = true ↔ call.workspace? = Option.none ∨ call.workspace? = some w := by
  cases hcall : call.workspace? with
  | none => simp [Call.concerns, hcall]
  | some v => simp [Call.concerns, hcall]

/-- A call that concerns a workspace is replied to alike where it is the same. -/
lemma Agree.perform (hagree : Agree w ws ws') (hcall : call.concerns w = true) :
    (ws'.perform call).2 = (ws.perform call).2
      ∧ Agree w (ws.perform call).1 (ws'.perform call).1 := by
  rcases concerns_iff.1 hcall with hnone | hsome
  · cases call with
    | openNew settings =>
      refine ⟨?_, ?_, ?_⟩
      · simp only [Workspaces.perform, openNew, hagree.size]
      · simp [Workspaces.perform, openNew, hagree.size]
      · simp only [Workspaces.perform, catalog_openNew, hagree.size, hagree.catalog]
    | _ => cases hnone
  · refine ⟨perform_snd_congr hsome hagree.catalog, ?_, ?_⟩
    · rw [perform_fst hsome, perform_fst hsome, size_update, size_update, hagree.size]
    · rw [perform_fst hsome, perform_fst hsome, hagree.catalog]
      by_cases hw : ws.Opened w
      · have hw' : ws'.Opened w := lt_of_lt_of_eq hw hagree.size.symm
        rw [catalog_update_self hw, catalog_update_self hw']
      · have hw' : ¬ ws'.Opened w := fun hlt => hw (lt_of_lt_of_eq hlt hagree.size)
        rw [update_of_not_opened hw, update_of_not_opened hw', hagree.catalog]

/-- A call that does not concern a workspace leaves it the same. -/
lemma Agree.perform_left (hagree : Agree w ws ws') (hcall : ¬ call.concerns w = true) :
    Agree w (ws.perform call).1 ws' := by
  rw [concerns_iff, not_or] at hcall
  obtain ⟨v, hv⟩ := Option.ne_none_iff_exists'.1 hcall.1
  have hvw : v ≠ w := by
    rintro rfl
    exact hcall.2 hv
  constructor
  · rw [perform_fst hv, size_update, hagree.size]
  · rw [perform_fst hv, catalog_update_of_ne hvw, hagree.catalog]

/-- **Two runs that agree on a workspace** have the same replies to the calls that concern it, where
the second run leaves out all others. -/
theorem Agree.trace_eq (hagree : Agree w ws ws') (calls : List Call) :
    (ws.trace calls).filter (fun x => x.1.concerns w)
      = ws'.trace (calls.filter (Call.concerns w)) := by
  induction calls generalizing ws ws' with
  | nil => rfl
  | cons call rest ih =>
    rw [trace]
    by_cases hcall : call.concerns w = true
    · obtain ⟨hreply, hrest⟩ := hagree.perform hcall
      rw [List.filter_cons_of_pos (by simpa using hcall),
        List.filter_cons_of_pos (by simpa using hcall), trace, hreply, ih hrest]
    · rw [List.filter_cons_of_neg (by simpa using hcall),
        List.filter_cons_of_neg (by simpa using hcall), ih (hagree.perform_left hcall)]

/-! ## Stability -/

/-- A handle is of a table of a name, and is found by it. -/
structure Holds (ws : Workspaces) (h : TableHandle) (name : String) (t : Table) : Prop where
  name_eq : ws.name h = .ok name
  data_eq : ws.data h = .ok t
  lookup_eq : ws.lookup? h.workspace name = some h

lemma name_eq_ok_iff :
    ws.name h = .ok name ↔ (ws.catalog h.workspace).schema.tableName? h.id = some name := by
  simp only [Workspaces.name]
  split <;> simp_all

lemma Reachable.holds (hws : ws.Reachable)
    (hname : (ws.catalog h.workspace).schema.tableName? h.id = some name)
    (hdata : (ws.catalog h.workspace).database.table h.id = .ok t) : ws.Holds h name t := by
  refine ⟨name_eq_ok_iff.2 hname, hdata, ?_⟩
  rw [lookup?, (hws h.workspace).consistent.tables.tableId?_eq hname]
  rfl

/-- **A handle keeps its name and its table**, whatever is called. -/
theorem Holds.afterAll (hws : ws.Reachable) (hopened : ws.Opened h.workspace)
    (hholds : ws.Holds h name t) (calls : List Call) : (ws.afterAll calls).Holds h name t := by
  have hextended : (ws.catalog h.workspace).database.Extended
      ((ws.afterAll calls).catalog h.workspace).database := by
    rw [catalog_afterAll hopened]
    exact Catalog.extended_foldl_after _ _
  exact (hws.afterAll calls).holds (hextended.name (name_eq_ok_iff.1 hholds.name_eq))
    (hextended.table_eq_ok hholds.data_eq)

/-- Of a workspace that has not been opened, nothing is known. -/
lemma catalog_of_not_opened (hw : ¬ ws.Opened w) : ws.catalog w = .empty .standard := by
  have hle : ¬ w.index < ws.catalogs.size := hw
  simp [catalog, hle]

/-- A handle that is given for a new table holds it. -/
lemma Reachable.holds_of_addTable (hws : ws.Reachable) (hw : ws.Opened w)
    (hreply : (ws.perform (.addTable w name t)).2 = .registered h) :
    h.workspace = w ∧ (ws.perform (.addTable w name t)).1.Holds h name t := by
  have hleft := hws.perform (.addTable w name t)
  simp only [Workspaces.perform, addTable_result] at hreply hleft ⊢
  cases hcall : ((ws.catalog w).addTable name t).result with
  | error x =>
    rw [hcall] at hreply
    cases hreply
  | ok x =>
    rw [hcall] at hreply hleft
    cases hreply
    obtain ⟨hname, hdata, -⟩ := ((hws w).registers_of_addTable hcall).new
    refine ⟨rfl, hleft.holds ?_ ?_⟩
    · show ((ws.update w x.1).catalog w).schema.tableName? x.2 = some name
      rwa [catalog_update_self hw]
    · show ((ws.update w x.1).catalog w).database.table x.2 = .ok t
      rwa [catalog_update_self hw, Database.table_eq_ok_iff]

/-- A handle that is found by a name holds the table of this name. -/
lemma Reachable.holds_of_lookup (hws : ws.Reachable) (hfound : ws.lookup? w name = some h) :
    h.workspace = w ∧ ws.Opened w ∧ ∃ t, ws.Holds h name t := by
  obtain ⟨id, hid, rfl⟩ := Option.map_eq_some_iff.1 hfound
  have hname := Schema.tableName?_of_tableId? hid
  have hlt : id < (ws.catalog w).database.tables.size :=
    lt_of_lt_of_eq (Schema.lt_size_of_tableName? hname) (hws w).closed.size_eq
  refine ⟨rfl, ?_, _, hws.holds hname (Database.table_eq_ok_iff.2 (Array.getElem?_eq_getElem hlt))⟩
  by_contra hw
  rw [catalog_of_not_opened hw] at hlt
  exact absurd hlt (Nat.not_lt_zero _)

/-! ## Relations -/

lemma eq_iff_id_eq {h' : TableHandle} (hw : h.workspace = h'.workspace) :
    h' = h ↔ h'.id = h.id := by
  obtain ⟨w, id⟩ := h
  obtain ⟨w', id'⟩ := h'
  obtain rfl : w = w' := hw
  simp

/-- A relation is declared in workspaces that have been opened, since others have no tables. -/
lemma opened_of_relate {c : Catalog} {r : Relation}
    (hcall : ((ws.catalog w).relate r).result = .ok c) : ws.Opened w := by
  obtain ⟨schema, hschema, -⟩ := Catalog.relate_eq_ok hcall
  have hlt := (Schema.addRelation_eq_ok hschema).1
  by_contra hw
  rw [catalog_of_not_opened hw] at hlt
  exact absurd hlt (Nat.not_lt_zero _)

/-- A relation that is declared is seen by the handles of its table, and other tables see none. -/
lemma relations_of_relate {other : TableHandle} {onLeft onRight : String}
    (hreply : (ws.perform (.relate h name other onLeft onRight)).2 = .done) (h' : TableHandle) :
    (ws.perform (.relate h name other onLeft onRight)).1.relations h' = ws.relations h'
      ++ if h' = h then [⟨h.id, name, other.id, onLeft, onRight⟩] else [] := by
  simp only [Workspaces.perform, relate_result] at hreply ⊢
  by_cases hsame : h.workspace = other.workspace
  · rw [if_pos hsame] at hreply ⊢
    cases hcall :
      ((ws.catalog h.workspace).relate ⟨h.id, name, other.id, onLeft, onRight⟩).result with
    | error x =>
      rw [hcall] at hreply
      cases hreply
    | ok c =>
      obtain ⟨schema, hschema, rfl⟩ := Catalog.relate_eq_ok hcall
      show ((ws.update h.workspace _).catalog h'.workspace).schema.relationsOf h'.id = _
      by_cases hw : h.workspace = h'.workspace
      · rw [← hw, catalog_update_self (opened_of_relate hcall)]
        refine (Schema.relationsOf_addRelation hschema h'.id).trans ?_
        simp only [relations, eq_iff_id_eq hw, ← hw]
      · have hne : h' ≠ h := fun heq => hw (heq ▸ rfl)
        rw [catalog_update_of_ne hw, if_neg hne, List.append_nil]
        rfl
  · rw [if_neg hsame] at hreply
    cases hreply

/-! ## At any time -/

/-- **What holds of workspaces at any time**, and of whatever is called from then on. -/
structure Coherent (ws : Workspaces) : Prop where
  /-- the calls that go through a workspace are replied to as if there were no calls through other
  ones -/
  isolated : ∀ w calls, (ws.trace calls).filter (fun x => x.1.concerns w)
    = ws.trace (calls.filter (Call.concerns w))
  /-- a workspace that is opened is a new one and stays there -/
  opened : ∀ settings, ∃ w, (ws.perform (.openNew settings)).2 = .workspace w ∧ ¬ ws.Opened w
    ∧ ∀ calls, ((ws.perform (.openNew settings)).1.afterAll calls).Opened w
  /-- a clone is the same workspace -/
  cloned : ∀ w, ws.perform (.clone w) = (ws, .workspace w)
  /-- what there is in a workspace is what the calls through it have made of it -/
  shared : ∀ w, ws.Opened w → ∀ calls, (ws.afterAll calls).catalog w
    = ((calls.filter fun call => call.workspace? = some w).flatMap Call.changes).foldl
      Catalog.after (ws.catalog w)
  /-- a handle that is given for a new table has its name and its table ever after -/
  registered : ∀ w name t h, ws.Opened w →
    (ws.perform (.addTable w name t)).2 = .registered h → h.workspace = w
      ∧ ∀ calls, ((ws.perform (.addTable w name t)).1.afterAll calls).Holds h name t
  /-- a handle that is found by a name has this name and one table ever after -/
  found : ∀ w name h, ws.lookup? w name = some h → h.workspace = w
    ∧ ∃ t, ∀ calls, (ws.afterAll calls).Holds h name t
  /-- a relation that is declared through a handle is seen by all handles of its table -/
  related : ∀ h name other onLeft onRight,
    (ws.perform (.relate h name other onLeft onRight)).2 = .done →
      ∀ h', (ws.perform (.relate h name other onLeft onRight)).1.relations h' = ws.relations h'
        ++ if h' = h then [⟨h.id, name, other.id, onLeft, onRight⟩] else []
  /-- settings are those of the whole workspace -/
  configured : ∀ w settings, ws.Opened w → ∀ w',
    (ws.perform (.withSettings w settings)).1.settings w'
      = if w' = w then settings else ws.settings w'
  /-- tables of different workspaces cannot be related, and to try changes nothing -/
  foreign : ∀ h name other onLeft onRight, h.workspace ≠ other.workspace →
    ws.perform (.relate h name other onLeft onRight) = (ws, .failed .foreignTable)

/-- **Workspaces are isolated and handles are stable**, whatever has been called before, and
whatever is called from then on. -/
theorem coherent_of_calls (calls : List Call) : (none.afterAll calls).Coherent := by
  have hws := reachable_none.afterAll calls
  generalize none.afterAll calls = ws at hws
  constructor
  case isolated => exact fun w calls => Agree.trace_eq ⟨rfl, rfl⟩ calls
  case opened =>
    intro settings
    refine ⟨_, rfl, lt_irrefl _, fun calls => Opened.afterAll ?_ calls⟩
    show ws.catalogs.size < (ws.catalogs.push _).size
    simp
  case cloned => exact fun w => rfl
  case shared => exact fun w hw calls => catalog_afterAll hw calls
  case registered =>
    intro w name t h hw hreply
    obtain ⟨rfl, hholds⟩ := hws.holds_of_addTable hw hreply
    exact ⟨rfl, hholds.afterAll (hws.perform _) (hw.perform _)⟩
  case found =>
    intro w name h hfound
    obtain ⟨rfl, hw, t, hholds⟩ := hws.holds_of_lookup hfound
    exact ⟨rfl, t, hholds.afterAll hws hw⟩
  case related => exact fun h name other onLeft onRight hreply => relations_of_relate hreply
  case configured =>
    intro w settings hw w'
    split_ifs with hsame
    · subst hsame
      exact congrArg Catalog.settings (catalog_update_self hw)
    · exact congrArg Catalog.settings (catalog_update_of_ne (Ne.symm hsame))
  case foreign =>
    intro h name other onLeft onRight hne
    simp only [Workspaces.perform, relate_result, if_neg hne]

/-- Two workspaces, in both of which the first table has one column. -/
def sideBySide : Workspaces :=
  none.afterAll [.openNew .standard, .openNew .standard,
    .addTable ⟨0⟩ "a" ⟨[⟨"n", #[.integer 1]⟩], #[0]⟩,
    .addTable ⟨1⟩ "b" ⟨[⟨"n", #[.integer 2]⟩], #[0]⟩]

/-- The number of a table does not tell its workspace. -/
example : (sideBySide.trace [.name ⟨⟨0⟩, 0⟩, .name ⟨⟨1⟩, 0⟩,
      .relate ⟨⟨0⟩, 0⟩ "b" ⟨⟨1⟩, 0⟩ "n" "n"]).map Prod.snd
    = [.name "a", .name "b", .failed .foreignTable] := by
  cbv

end Workspaces

end LinkedTables
