import Mathlib
import LinkedTables.Proofs.Catalog.Growth
import LinkedTables.Workspace

/-!
# Calls on workspaces

Each call on a workspace is carried out as a whole before the next one, whoever makes it.  So
whatever several callers do with several workspaces, clones and handles, in whichever order, is one
sequence of calls.  `Workspaces.perform` says what one call does: it leaves workspaces and a reply.

A call goes **through** one workspace (`Call.workspace?`), or it opens a new one.  What it leaves is
told by the changes that it makes to the catalog of this workspace (`perform_fst`), and what it
replies by this catalog alone (`perform_snd_congr`).
-/

namespace LinkedTables

namespace Workspaces

/-- A call on workspaces, through one of them or through a handle of one of them. -/
inductive Call where
  | openNew (settings : Settings)
  | clone (w : Workspace)
  | addTable (w : Workspace) (name : String) (t : Table)
  | lookup (w : Workspace) (name : String)
  | settings (w : Workspace)
  | withSettings (w : Workspace) (settings : Settings)
  | size (w : Workspace)
  | name (h : TableHandle)
  | data (h : TableHandle)
  | relations (h : TableHandle)
  | relate (h : TableHandle) (name : String) (other : TableHandle) (onLeft onRight : String)
  | filter (h : TableHandle) (text : String)
  | explain (h : TableHandle) (text : String)

/-- What a caller gets. -/
inductive Reply where
  | done
  | workspace (w : Workspace)
  | registered (h : TableHandle)
  | found (h : Option TableHandle)
  | settings (settings : Settings)
  | size (n : ℕ)
  | name (name : String)
  | table (t : Table)
  | relations (rs : List Relation)
  | plan (p : JoinPlan)
  | failed (x : Failure)

/-- The reply that an answer stands for. -/
def Reply.ofResult {α : Type} (reply : α → Reply) : Except Failure α → Reply
  | .ok a => reply a
  | .error x => .failed x

/-- What a call leaves, and its reply.  A call that fails leaves what there was. -/
def perform (ws : Workspaces) : Call → Workspaces × Reply
  | .openNew settings => ((ws.openNew settings).1, .workspace (ws.openNew settings).2)
  | .clone w => (ws, .workspace w)
  | .addTable w name t =>
    match (ws.addTable w name t).result with
    | .ok (ws', h) => (ws', .registered h)
    | .error x => (ws, .failed x)
  | .lookup w name => (ws, .found (ws.lookup? w name))
  | .settings w => (ws, .settings (ws.settings w))
  | .withSettings w settings => (ws.withSettings w settings, .done)
  | .size w => (ws, .size (ws.size w))
  | .name h => (ws, .ofResult .name (ws.name h))
  | .data h => (ws, .ofResult .table (ws.data h))
  | .relations h => (ws, .relations (ws.relations h))
  | .relate h name other onLeft onRight =>
    match (ws.relate h name other onLeft onRight).result with
    | .ok ws' => (ws', .done)
    | .error x => (ws, .failed x)
  | .filter h text => (ws, .ofResult .table (ws.filter h text).result)
  | .explain h text => (ws, .ofResult .plan (ws.explain h text).result)

/-- What is left after a sequence of calls. -/
def afterAll (ws : Workspaces) : List Call → Workspaces
  | [] => ws
  | call :: rest => (ws.perform call).1.afterAll rest

/-- A sequence of calls, each with its reply. -/
def trace (ws : Workspaces) : List Call → List (Call × Reply)
  | [] => []
  | call :: rest => (call, (ws.perform call).2) :: (ws.perform call).1.trace rest

namespace Call

/-- The workspace that a call goes through; a new one is opened through none. -/
def workspace? : Call → Option Workspace
  | .openNew _ => Option.none
  | .clone w | .addTable w _ _ | .lookup w _ | .settings w | .withSettings w _ | .size w => some w
  | .name h | .data h | .relations h | .relate h .. | .filter h _ | .explain h _ => some h.workspace

/-- A call goes through a workspace, or opens a new one. -/
def concerns (w : Workspace) (call : Call) : Bool := call.workspace?.all (· == w)

/-- The changes that a call makes to the catalog of the workspace that it goes through. -/
def changes : Call → List Catalog.Call
  | .addTable _ tableName t => [.addTable tableName t]
  | .withSettings _ replacement => [.withSettings replacement]
  | .relate h relationName other onLeft onRight =>
    if h.workspace = other.workspace then [.relate ⟨h.id, relationName, other.id, onLeft, onRight⟩]
    else []
  | _ => []

end Call

variable {ws ws' : Workspaces} {w w' : Workspace} {c : Catalog} {call : Call}

/-! ## Catalogs -/

/-- A workspace has been opened. -/
def Opened (ws : Workspaces) (w : Workspace) : Prop := w.index < ws.catalogs.size

@[simp] lemma size_update : (ws.update w c).catalogs.size = ws.catalogs.size := by
  simp [update]

lemma catalog_update_self (hw : ws.Opened w) : (ws.update w c).catalog w = c := by
  have hlt : w.index < ws.catalogs.size := hw
  simp [catalog, update, hlt]

lemma catalog_update_of_ne (hne : w ≠ w') : (ws.update w c).catalog w' = ws.catalog w' := by
  have hindex : w.index ≠ w'.index := fun h => hne (by cases w; cases w'; cases h; rfl)
  simp [catalog, update, hindex]

lemma update_of_not_opened (hw : ¬ ws.Opened w) : ws.update w c = ws := by
  have hle : ¬ w.index < ws.catalogs.size := hw
  simp [update, Array.setIfInBounds, hle]

lemma update_catalog (ws : Workspaces) (w : Workspace) : ws.update w (ws.catalog w) = ws := by
  by_cases hw : w.index < ws.catalogs.size
  · have hself : ws.catalog w = ws.catalogs[w.index] := by simp [catalog, hw]
    simp [update, hself, Array.setIfInBounds, hw]
  · exact update_of_not_opened hw

/-! ## What a call leaves -/

lemma addTable_result (ws : Workspaces) (w : Workspace) (name : String) (t : Table) :
    (ws.addTable w name t).result = (do
      let x ← ((ws.catalog w).addTable name t).result
      pure (ws.update w x.1, ⟨w, x.2⟩)) :=
  ((Catalog.addTable_returns _ name t).self.bind fun _ => Traced.returns_pure _).result

lemma relate_result (ws : Workspaces) (h other : TableHandle) (name onLeft onRight : String) :
    (ws.relate h name other onLeft onRight).result =
      if h.workspace = other.workspace then do
        let c ← ((ws.catalog h.workspace).relate ⟨h.id, name, other.id, onLeft, onRight⟩).result
        pure (ws.update h.workspace c)
      else .error .foreignTable := by
  have hreturns : (ws.relate h name other onLeft onRight).Returns (if h.workspace = other.workspace
      then do
        let c ← ((ws.catalog h.workspace).relate ⟨h.id, name, other.id, onLeft, onRight⟩).result
        pure (ws.update h.workspace c)
      else .error .foreignTable) := by
    simp only [relate]
    by_cases hsame : h.workspace = other.workspace
    · rw [if_neg (not_not.2 hsame), if_pos hsame]
      exact (Catalog.relate_returns _ _).self.bind fun _ => Traced.returns_pure _
    · rw [if_pos hsame, if_neg hsame]
      exact (Traced.returns_throw _).bind_error _
  exact hreturns.result

/-- **A call changes the catalog of the workspace that it goes through**, and nothing else. -/
theorem perform_fst (h : call.workspace? = some w) :
    (ws.perform call).1 = ws.update w (call.changes.foldl Catalog.after (ws.catalog w)) := by
  cases call with
  | openNew settings => cases h
  | addTable v name t =>
    cases h
    simp only [perform, addTable_result, Call.changes, List.foldl_cons, List.foldl_nil,
      Catalog.after, Catalog.withTable]
    cases ((ws.catalog w).addTable name t).result with
    | error x => exact (update_catalog ws w).symm
    | ok x => rfl
  | withSettings v settings =>
    cases h
    rfl
  | relate h' name other onLeft onRight =>
    cases h
    simp only [perform, relate_result, Call.changes]
    split_ifs
    · simp only [List.foldl_cons, List.foldl_nil, Catalog.after, Catalog.withRelation]
      cases ((ws.catalog h'.workspace).relate ⟨h'.id, name, other.id, onLeft, onRight⟩).result with
      | error x => exact (update_catalog ws h'.workspace).symm
      | ok c => rfl
    · exact (update_catalog ws h'.workspace).symm
  | _ => exact (update_catalog ws w).symm

/-! ## What is replied -/

/-- **A reply tells of one workspace**, that which the call goes through. -/
theorem perform_snd_congr (h : call.workspace? = some w) (hsame : ws'.catalog w = ws.catalog w) :
    (ws'.perform call).2 = (ws.perform call).2 := by
  cases call with
  | openNew settings => cases h
  | addTable v name t =>
    cases h
    simp only [perform, addTable_result, hsame]
    cases ((ws.catalog w).addTable name t).result <;> rfl
  | relate h' name other onLeft onRight =>
    cases h
    simp only [perform, relate_result, hsame]
    split_ifs
    · cases ((ws.catalog h'.workspace).relate ⟨h'.id, name, other.id, onLeft, onRight⟩).result <;>
        rfl
    · rfl
  | _ =>
    cases h
    simp only [perform, lookup?, Workspaces.settings, Workspaces.size, Workspaces.name, data,
      Workspaces.relations, Workspaces.filter, Workspaces.explain, hsame]

/-! ## Sequences of calls -/

lemma catalog_openNew (ws : Workspaces) (settings : Settings) (w : Workspace) :
    (ws.openNew settings).1.catalog w
      = if w.index = ws.catalogs.size then .empty settings else ws.catalog w := by
  simp only [openNew, catalog, Array.getElem?_push]
  split_ifs <;> rfl

lemma Opened.perform (hw : ws.Opened w) (call : Call) : (ws.perform call).1.Opened w := by
  cases hcall : call.workspace? with
  | some v =>
    rw [Opened, perform_fst hcall, size_update]
    exact hw
  | none =>
    cases call with
    | openNew settings =>
      show w.index < (ws.catalogs.push _).size
      rw [Array.size_push]
      exact Nat.lt_succ_of_lt hw
    | _ => cases hcall

lemma Opened.afterAll (hw : ws.Opened w) (calls : List Call) : (ws.afterAll calls).Opened w := by
  induction calls generalizing ws with
  | nil => exact hw
  | cons call rest ih => exact ih (hw.perform call)

/-- A call that goes through another workspace, or opens one, leaves a catalog as it is. -/
lemma catalog_perform_of_ne (hw : ws.Opened w) (hne : call.workspace? ≠ some w) :
    (ws.perform call).1.catalog w = ws.catalog w := by
  cases hcall : call.workspace? with
  | some v =>
    have hvw : v ≠ w := by
      rintro rfl
      exact hne hcall
    rw [perform_fst hcall, catalog_update_of_ne hvw]
  | none =>
    cases call with
    | openNew settings => exact (catalog_openNew ws settings w).trans (if_neg hw.ne)
    | _ => cases hcall

/-- **A catalog is what the calls through its workspace have made of it**, by whatever clone or
handle they were made. -/
theorem catalog_afterAll (hw : ws.Opened w) (calls : List Call) :
    (ws.afterAll calls).catalog w
      = ((calls.filter fun call => call.workspace? = some w).flatMap Call.changes).foldl
        Catalog.after (ws.catalog w) := by
  induction calls generalizing ws with
  | nil => rfl
  | cons call rest ih =>
    rw [afterAll, ih (hw.perform call)]
    by_cases hcall : call.workspace? = some w
    · rw [List.filter_cons_of_pos (by simpa using hcall), List.flatMap_cons, List.foldl_append,
        perform_fst hcall, catalog_update_self hw]
    · rw [List.filter_cons_of_neg (by simpa using hcall), catalog_perform_of_ne hw hcall]

/-- Each catalog is one that calls on a catalog lead to. -/
def Reachable (ws : Workspaces) : Prop := ∀ w, (ws.catalog w).Reachable

lemma reachable_none : none.Reachable := fun _ => .empty .standard

lemma Reachable.perform (h : ws.Reachable) (call : Call) : (ws.perform call).1.Reachable := by
  intro w
  cases hcall : call.workspace? with
  | some v =>
    rw [perform_fst hcall]
    by_cases hv : ws.Opened v
    · by_cases hvw : v = w
      · subst hvw
        rw [catalog_update_self hv]
        exact (h v).foldl_after call.changes
      · rw [catalog_update_of_ne hvw]
        exact h w
    · rw [update_of_not_opened hv]
      exact h w
  | none =>
    cases call with
    | openNew settings =>
      have hopened : (ws.openNew settings).1.catalog w = _ := catalog_openNew ws settings w
      show ((ws.openNew settings).1.catalog w).Reachable
      rw [hopened]
      split_ifs
      · exact .empty settings
      · exact h w
    | _ => cases hcall

lemma Reachable.afterAll (h : ws.Reachable) (calls : List Call) :
    (ws.afterAll calls).Reachable := by
  induction calls generalizing ws with
  | nil => exact h
  | cons call rest ih => exact ih (h.perform call)

end Workspaces

end LinkedTables
