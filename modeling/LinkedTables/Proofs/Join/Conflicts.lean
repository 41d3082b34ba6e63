import Mathlib
import LinkedTables.Proofs.Join.Relations

/-!
# Which explicit paths cannot be planned

Explicit paths are added relation by relation, and each relation is compared with the steps that are
there by then.  What is refused is nevertheless a matter of the paths taken together
(`BoundFilter.Conflict`):

* up to a refusal every step has been made from a relation of an explicit path, so that a refusal
  names a conflict (`conflict_of_plan_error`);
* a plan has a step for each of these relations and only one to a table, so that where there is a
  plan there is no conflict (`unforked_of_plan`).

Filters that refer to the same columns (`Expr.RefersAlike`) spell out the same paths, each in its
own order, and so they are refused together.
-/

namespace LinkedTables

/-! ## Filters with the same references -/

/-- Two filters have the same references, written in any order and at any places. -/
def Expr.RefersAlike (e e' : Expr Reference) : Prop :=
  ∀ form, form ∈ e.columns.map Reference.form ↔ form ∈ e'.columns.map Reference.form

namespace Database

variable {db : Database} {home : TableId} {rule : UnqualifiedRule} {e e' : Expr Reference}

/-- Where a reference stands does not matter for what it is bound to. -/
lemma bind_eq_of_form_eq {r r' : Reference} (h : r.form = r'.form) :
    db.bind home rule r = db.bind home rule r' := by
  simp only [bind, h]

lemma bindingOf_eq_of_form_eq {r r' : Reference} (h : r.form = r'.form) :
    db.bindingOf home rule r = db.bindingOf home rule r' := by
  simp only [bindingOf, bind_eq_of_form_eq h, Reference.name, h]

lemma mem_bindings_iff (h : e.RefersAlike e') {b : Binding} :
    b ∈ e.columns.map (db.bindingOf home rule) ↔ b ∈ e'.columns.map (db.bindingOf home rule) := by
  have hsubset : ∀ {e e' : Expr Reference}, e.RefersAlike e' →
      b ∈ e.columns.map (db.bindingOf home rule) →
      b ∈ e'.columns.map (db.bindingOf home rule) := by
    intro e e' h hb
    obtain ⟨r, hr, rfl⟩ := List.mem_map.1 hb
    obtain ⟨r', hr', hform⟩ := List.mem_map.1 ((h r.form).1 (List.mem_map_of_mem hr))
    exact List.mem_map.2 ⟨r', hr', bindingOf_eq_of_form_eq hform⟩
  exact ⟨hsubset h, hsubset fun form => (h form).symm⟩

/-- **A filter with the same references is bound** to the same columns and paths. -/
lemma exists_bindFilter_of_refersAlike {f : BoundFilter} (h : e.RefersAlike e')
    (hf : (db.bindFilter home rule e).result = .ok f) :
    ∃ f', (db.bindFilter home rule e').result = .ok f' ∧ f.Alike f' := by
  obtain ⟨ht, hbound, rfl⟩ := bindFilter_eq_ok_iff.1 hf
  have hbound' : ∀ r' ∈ e'.columns, ∃ b, db.bind home rule r' = .ok b := by
    intro r' hr'
    obtain ⟨r, hr, hform⟩ := List.mem_map.1 ((h r'.form).2 (List.mem_map_of_mem hr'))
    obtain ⟨b, hb⟩ := hbound r hr
    exact ⟨b, bind_eq_of_form_eq hform ▸ hb⟩
  have howners : ∀ {e : Expr Reference} {paths : List ExplicitPath} {id : TableId},
      id ∈ BoundFilter.owners ⟨e.mapColumns fun r => (db.bindingOf home rule r).column, paths⟩ ↔
        ∃ b ∈ e.columns.map (db.bindingOf home rule), b.column.table = id := by
    intro e paths id
    simp [BoundFilter.mem_owners, Expr.columns_mapColumns]
  refine ⟨_, bindFilter_eq_ok_iff.2 ⟨ht, hbound', rfl⟩, fun x => ?_, fun id => ?_⟩
  · simp only [mem_explicitPaths, mem_bindings_iff h]
  · simp only [howners, mem_bindings_iff h]

end Database

/-! ## Conflicts -/

lemma BoundFilter.Alike.conflict {f f' : BoundFilter} {s : Schema} {home : TableId}
    {fault : InputFault} (h : f.Alike f') (hc : f.Conflict s home fault) :
    f'.Conflict s home fault := by
  cases hc with
  | leadsHome hr hhome => exact .leadsHome (h.mem_hops_iff.1 hr) hhome
  | twoWays hq hr htarget hne =>
    exact .twoWays (h.mem_hops_iff.1 hq) (h.mem_hops_iff.1 hr) htarget hne

variable {db : Database} {home : TableId} {f : BoundFilter}

/-- **There is no plan exactly if there is a conflict.** -/
lemma exists_plan_error_iff (hs : db.schema.Closed) (hn : db.schema.NamesOnce)
    (hf : f.Sound db home) :
    (∃ x, db.schema.plan home f = .error x) ↔ ∃ fault, f.Conflict db.schema home fault := by
  constructor
  · rintro ⟨x, hx⟩
    obtain ⟨fault, hconflict, -⟩ := conflict_of_plan_error hs hf hx
    exact ⟨fault, hconflict⟩
  · rintro ⟨fault, hconflict⟩
    cases hplan : db.schema.plan home f with
    | ok p => exact absurd hconflict (unforked_of_plan hs hn hf hplan).not_conflict
    | error x => exact ⟨x, rfl⟩

/-- **Explicit paths are refused exactly if they conflict**: one leads back to the home table, or
two relations with different sources or names lead to one table.  The failure names such relations
and is never of another kind, and whether there is one does not depend on the order of the
references. -/
theorem plan_error_iff_conflict {c : Catalog} {rule : UnqualifiedRule} {e : Expr Reference}
    (hc : c.Reachable) (hf : (c.database.bindFilter home rule e).result = .ok f) :
    ((∃ x, c.schema.plan home f = .error x) ↔ ∃ fault, f.Conflict c.schema home fault)
      ∧ (∀ x, c.schema.plan home f = .error x →
        ∃ fault, f.Conflict c.schema home fault ∧ x = .invalidInput fault)
      ∧ ∀ e', e.RefersAlike e' → ∃ f', (c.database.bindFilter home rule e').result = .ok f'
        ∧ ((∃ x, c.schema.plan home f' = .error x) ↔ ∃ x, c.schema.plan home f = .error x) := by
  have hs : c.database.schema.Closed := hc.closed.schema
  have hn : c.database.schema.NamesOnce := hc.closed.names
  have hiff : ∀ {e : Expr Reference} {f : BoundFilter},
      (c.database.bindFilter home rule e).result = .ok f →
      ((∃ x, c.schema.plan home f = .error x) ↔ ∃ fault, f.Conflict c.schema home fault) :=
    fun hf => exists_plan_error_iff hs hn (Database.bindFilter_sound hf).2
  refine ⟨hiff hf, fun x => conflict_of_plan_error hs (Database.bindFilter_sound hf).2, ?_⟩
  intro e' halike
  obtain ⟨f', hf', hpaths⟩ := Database.exists_bindFilter_of_refersAlike halike hf
  refine ⟨f', hf', ?_⟩
  rw [hiff hf, hiff hf']
  exact exists_congr fun fault => ⟨hpaths.symm.conflict, hpaths.conflict⟩

/-- `a.b.x == 1 & c.b.x == 2` -/
def overBoth : Expr Reference :=
  .and [.compare ⟨.path ["a", "b"] "x", 0⟩ .eq (.integer 1),
    .compare ⟨.path ["c", "b"] "x", 13⟩ .eq (.integer 2)]

/-- `c.b.x == 2 | a.b.x == 1` -/
def overBothAgain : Expr Reference :=
  .or [.compare ⟨.path ["c", "b"] "x", 0⟩ .eq (.integer 2),
    .compare ⟨.path ["a", "b"] "x", 13⟩ .eq (.integer 1)]

/-- The table `b` cannot be joined over `a` and over `c`, whichever is written first. -/
theorem plan_error_iff_conflict_crossing :
    ∃ f f', crossing.Reachable
      ∧ (crossing.database.bindFilter 0 .strict overBoth).result = .ok f
      ∧ overBoth.RefersAlike overBothAgain
      ∧ (crossing.database.bindFilter 0 .strict overBothAgain).result = .ok f'
      ∧ crossing.schema.plan 0 f = .error (.invalidInput (.twoWays "b" ("a", "b") ("c", "b")))
      ∧ ((∃ x, crossing.schema.plan 0 f = .error x) ↔
        ∃ fault, f.Conflict crossing.schema 0 fault)
      ∧ (∃ fault, f.Conflict crossing.schema 0 fault
        ∧ Failure.invalidInput (.twoWays "b" ("a", "b") ("c", "b")) = .invalidInput fault)
      ∧ ∃ x, crossing.schema.plan 0 f' = .error x := by
  have h : (crossing.database.bindFilter 0 .strict overBoth).result
        = .ok ⟨.and [.compare ⟨3, "x"⟩ .eq (.integer 1), .compare ⟨3, "x"⟩ .eq (.integer 2)],
          [⟨3, [⟨0, "a", 1, "k", "k"⟩, ⟨1, "b", 3, "k", "k"⟩]⟩,
            ⟨3, [⟨0, "c", 2, "k", "k"⟩, ⟨2, "b", 3, "k", "k"⟩]⟩]⟩
      ∧ crossing.schema.plan 0
          ⟨.and [.compare ⟨3, "x"⟩ .eq (.integer 1), .compare ⟨3, "x"⟩ .eq (.integer 2)],
            [⟨3, [⟨0, "a", 1, "k", "k"⟩, ⟨1, "b", 3, "k", "k"⟩]⟩,
              ⟨3, [⟨0, "c", 2, "k", "k"⟩, ⟨2, "b", 3, "k", "k"⟩]⟩]⟩
        = .error (.invalidInput (.twoWays "b" ("a", "b") ("c", "b"))) :=
    ⟨by cbv, by cbv⟩
  obtain ⟨hbound, hplan⟩ := h
  have halike : overBoth.RefersAlike overBothAgain := by
    intro form
    simp [overBoth, overBothAgain, or_comm]
  obtain ⟨hiff, hfault, horder⟩ := plan_error_iff_conflict reachable_crossing hbound
  obtain ⟨f', hbound', hsame⟩ := horder overBothAgain halike
  exact ⟨_, f', reachable_crossing, hbound, halike, hbound', hplan, hiff, hfault _ hplan,
    hsame.2 ⟨_, hplan⟩⟩

end LinkedTables
