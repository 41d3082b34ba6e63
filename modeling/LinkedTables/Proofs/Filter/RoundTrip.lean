import Mathlib
import LinkedTables.Proofs.Filter.Acceptance
import LinkedTables.Proofs.Filter.Rendering
import LinkedTables.Proofs.Traced

/-!
# Parsing the text of a filter

A filter is shown as a text, and the text may be parsed again.  For well-formed filters, whether
they were parsed or put together otherwise, there are two questions, and each is answered exactly.

* **Is the text accepted?**  The text puts parentheses around every chain and behind every negation
  sign, and each counts as a level.  So it is accepted exactly if its own nesting stays within the
  limit, which the nesting of a text that the filter was parsed from does not ensure: a row of
  negation signs is shown with twice as many levels (`parseFilter_negations`).
* **Is it the same filter?**  It is but for references: a path that begins with `self`
  loses it every time it is read (`Expr.reread`).

`parseFilter_text` has both answers; what follows it are the forms in which they are asked, for all
well-formed filters that have no such path, and for the filters that were accepted.
-/

namespace LinkedTables

open Outcome

/-! ## Whole texts -/

/-- What is accepted is well-formed. -/
lemma wellFormed_of_parseFilter {text : String} {e : Expr Reference}
    (h : parseFilter text = .ok e) : e.WellFormed := by
  rw [parseFilter_eq_bind] at h
  obtain ⟨s, htokens, hparse⟩ := eq_ok_of_bind h
  rcases exists_of_tokenize htokens with ⟨tokens, p, rfl, hwell⟩
  rcases Parser.derives_of_parse (fun t ht => (hwell t ht).1) hparse with ⟨d, -, hderives⟩
  exact wellFormed_of_derives hderives (fun t ht => (hwell t ht).2) e (List.mem_singleton_self e)

/-- A text that reads as an expression is accepted if its levels are not too many, and refused if
they are. -/
lemma parseFilter_of_reads {text : String} {d : ℕ} {f : Expr Reference.Form}
    (h : Reads (.chain .or) d text.toList [f]) :
    (d ≤ maxNesting → ∃ e, parseFilter text = .ok e ∧ e.forms = f)
      ∧ (maxNesting < d → ∃ fault, parseFilter text = .error fault) := by
  rcases h.exists_single with ⟨ts, hlexes, hderives⟩
  have hwhole := hlexes [] Reads.boundary_nil
  rw [List.append_nil] at hwhole
  rcases exists_tokenize_of_lexes hwhole with ⟨placed, p, hplaced, htokens⟩
  rcases hderives placed hplaced with ⟨e, hd, he⟩
  have hparse : parseFilter text
      = (Parser.parse ⟨TokenStream.prepend placed ⟨⟨.endOfInput, p⟩, []⟩, 0⟩).1 := by
    rw [parseFilter_eq_bind, htokens]
    rfl
  rw [hparse]
  rcases Parser.parse_of_derives hd with ⟨haccepts, hrefuses⟩
  exact ⟨fun hle => ⟨e, haccepts hle, he⟩, hrefuses⟩

/-- What becomes of the text of a filter that can be accepted. -/
lemma parseFilter_text {e : Expr Reference} (h : e.WellFormed) :
    (e.nesting ≤ maxNesting → ∃ e', parseFilter (e.text Reference.text) = .ok e'
        ∧ e'.forms = e.reread)
      ∧ (maxNesting < e.nesting →
        ∃ fault, parseFilter (e.text Reference.text) = .error fault) := by
  refine parseFilter_of_reads ?_
  rw [Expr.toList_text]
  exact (reads_chars h).expression

/-! ## Well-formed filters -/

/-- **A well-formed filter is parsed from its text**, with all of its references as they were if no
path begins with `self`; more levels than the limit are refused. -/
theorem parseFilter_text_of_wellFormed {e : Expr Reference} (h : e.WellFormed)
    (hself : ∀ r ∈ e.columns, ¬ r.form.StartsWithSelf) :
    (e.nesting ≤ maxNesting → ∃ e', parseFilter (e.text Reference.text) = .ok e'
        ∧ e'.forms = e.forms)
      ∧ (maxNesting < e.nesting → ∃ fault : SyntaxError,
        parseFilter (e.text Reference.text) = .error fault) := by
  have hforms : e.reread = e.forms := (Expr.reread_eq_forms_iff e).2 hself
  rw [← hforms]
  exact parseFilter_text h

/-- A filter with all connectives, a reference of each form and a literal of several kinds. -/
def mixed : Expr Reference :=
  .or [.and [.compare ⟨.path ["orders", "product"] "price", 0⟩ .gt (.float ⟨0x4004000000000000⟩),
      .not (.compare ⟨.home "name", 0⟩ .eq (.text "it's"))],
    .compare ⟨.plain "age", 0⟩ .le (.integer (-4)),
    .compare ⟨.plain "done", 0⟩ .ne (.boolean true)]

lemma wellFormed_mixed : mixed.WellFormed := by
  have hprice : (Reference.Form.path ["orders", "product"] "price").WellFormed :=
    ⟨by simp, by decide, by decide⟩
  have hname : IsName "name" := by decide
  have hage : (Reference.Form.plain "age").WellFormed := ⟨by decide, by cbv⟩
  have hdone : (Reference.Form.plain "done").WellFormed := ⟨by decide, by cbv⟩
  have hquoted : (Cell.text "it's").Writable := .inr (by decide)
  refine .or (by decide) (List.forall_mem_cons.2 ⟨.and (by decide) ?_, ?_⟩)
  · rw [List.forall_mem_cons, List.forall_mem_singleton]
    exact ⟨.compare hprice rfl, .not (.compare hname hquoted)⟩
  · rw [List.forall_mem_cons, List.forall_mem_singleton]
    exact ⟨.compare hage trivial, .compare hdone trivial⟩

theorem parseFilter_text_of_wellFormed_mixed :
    mixed.WellFormed ∧ (∀ r ∈ mixed.columns, ¬ r.form.StartsWithSelf)
      ∧ (mixed.nesting ≤ maxNesting → ∃ e', parseFilter (mixed.text Reference.text) = .ok e'
        ∧ e'.forms = mixed.forms)
      ∧ (maxNesting < mixed.nesting → ∃ fault : SyntaxError,
        parseFilter (mixed.text Reference.text) = .error fault) := by
  have hcolumns : mixed.columns = [⟨.path ["orders", "product"] "price", 0⟩, ⟨.home "name", 0⟩,
      ⟨.plain "age", 0⟩, ⟨.plain "done", 0⟩] := by cbv
  have hself : ∀ r ∈ mixed.columns, ¬ r.form.StartsWithSelf := by
    rw [hcolumns]
    simp [Reference.Form.StartsWithSelf]
  exact ⟨wellFormed_mixed, hself, parseFilter_text_of_wellFormed wellFormed_mixed hself⟩

/-! ## Is the text accepted? -/

/-- **The text of an accepted filter is accepted** exactly if its nesting is within the limit. -/
theorem exists_parseFilter_text_iff {text : String} {e : Expr Reference}
    (h : parseFilter text = .ok e) :
    (∃ e', parseFilter (e.text Reference.text) = .ok e') ↔ e.nesting ≤ maxNesting := by
  rcases parseFilter_text (wellFormed_of_parseFilter h) with ⟨haccepts, hrefuses⟩
  constructor
  · rintro ⟨e', he'⟩
    by_contra hlt
    rcases hrefuses (Nat.not_le.1 hlt) with ⟨fault, hfault⟩
    rw [he'] at hfault
    cases hfault
  · intro hle
    rcases haccepts hle with ⟨e', he', -⟩
    exact ⟨e', he'⟩

theorem exists_parseFilter_text_iff_negation :
    ∃ e, parseFilter "~a == 1" = .ok e
      ∧ ((∃ e', parseFilter (e.text Reference.text) = .ok e') ↔ e.nesting ≤ maxNesting) := by
  have h : parseFilter "~a == 1" = .ok (.not (.compare ⟨.plain "a", 1⟩ .eq (.integer 1))) := by
    cbv
  exact ⟨_, h, exists_parseFilter_text_iff h⟩

/-- A comparison behind `n` negation signs. -/
def negations (n : ℕ) : String := String.ofList (List.replicate n '~' ++ "a == 1".toList)

lemma reads_negations (n : ℕ) :
    ∃ f, f.nesting = 2 * n ∧ Reads .term n (negations n).toList [f] := by
  rw [negations, String.toList_ofList]
  induction n with
  | zero =>
    have hname : IsName "a" := by decide
    have hr : (Reference.Form.plain "a").WellFormed := ⟨hname, by cbv⟩
    have hone : (Cell.integer 1).Writable := trivial
    have hreads : Reads .term 0
        ((Expr.compare (Reference.mk (.plain "a") 0) .eq (.integer 1)).chars Reference.text) _ :=
      Reads.comparison hr hone
    exact ⟨_, rfl, hreads⟩
  | succ n ih =>
    rcases ih with ⟨f, hf, hreads⟩
    exact ⟨.not f, by rw [Expr.nesting, hf]; ring, hreads.negation⟩

/-- Negation signs are shown with parentheses and so with twice as many levels: their text is
refused as soon as there are more than half as many as there may be levels. -/
lemma parseFilter_negations {n : ℕ} (hle : n ≤ maxNesting) (hlt : maxNesting < 2 * n) :
    ∃ e, parseFilter (negations n) = .ok e
      ∧ ¬ ∃ e', parseFilter (e.text Reference.text) = .ok e' := by
  rcases reads_negations n with ⟨f, hf, hreads⟩
  rcases (parseFilter_of_reads hreads.expression).1 hle with ⟨e, he, hforms⟩
  have hnesting : e.nesting = 2 * n := by
    rw [← hf, ← hforms, Expr.forms, Expr.nesting_mapColumns]
  refine ⟨e, he, ?_⟩
  rintro ⟨e', he'⟩
  rcases (parseFilter_text (wellFormed_of_parseFilter he)).2 (by omega) with ⟨fault, hfault⟩
  rw [he'] at hfault
  cases hfault

theorem parseFilter_text_refused :
    ∃ e, parseFilter (negations 65) = .ok e
      ∧ ¬ ∃ e', parseFilter (e.text Reference.text) = .ok e' :=
  parseFilter_negations (by decide) (by decide)

/-! ## Is it the same filter? -/

/-- **The text of an accepted filter is read as the same filter**, but a path that begins with
`self` loses it.  So it is the same in all of its references exactly if none is such a path. -/
theorem forms_of_parseFilter_text {text : String} {e e' : Expr Reference}
    (h : parseFilter text = .ok e) (h' : parseFilter (e.text Reference.text) = .ok e') :
    e'.forms = e.reread
      ∧ (e'.forms = e.forms ↔ ∀ r ∈ e.columns, ¬ r.form.StartsWithSelf) := by
  rcases parseFilter_text (wellFormed_of_parseFilter h) with ⟨haccepts, hrefuses⟩
  have hle : e.nesting ≤ maxNesting := by
    by_contra hlt
    rcases hrefuses (Nat.not_le.1 hlt) with ⟨fault, hfault⟩
    rw [h'] at hfault
    cases hfault
  rcases haccepts hle with ⟨e₁, he₁, hforms⟩
  rw [h'] at he₁
  cases he₁
  exact ⟨hforms, by rw [hforms, Expr.reread_eq_forms_iff]⟩

theorem forms_of_parseFilter_text_path :
    ∃ e e', parseFilter "self.a.b > 5" = .ok e
      ∧ parseFilter (e.text Reference.text) = .ok e' ∧ e'.forms = e.reread
      ∧ (e'.forms = e.forms ↔ ∀ r ∈ e.columns, ¬ r.form.StartsWithSelf) := by
  have h : parseFilter "self.a.b > 5" = .ok (.compare ⟨.path ["a"] "b", 0⟩ .gt (.integer 5))
      ∧ parseFilter ((Expr.compare ⟨.path ["a"] "b", 0⟩ .gt (.integer 5)).text Reference.text)
        = .ok (.compare ⟨.path ["a"] "b", 0⟩ .gt (.integer 5)) :=
    ⟨by cbv, by cbv⟩
  exact ⟨_, _, h.1, h.2, forms_of_parseFilter_text h.1 h.2⟩

/-- Two leading `self`s are read as a path of relations that begins with `self`, and its text is
read as a path that does not. -/
theorem parseFilter_text_changed :
    ∃ e e', parseFilter "self.self.a.b == 1" = .ok e
      ∧ parseFilter (e.text Reference.text) = .ok e' ∧ e'.forms ≠ e.forms :=
  ⟨.compare ⟨.path ["self", "a"] "b", 0⟩ .eq (.integer 1),
    .compare ⟨.path ["a"] "b", 0⟩ .eq (.integer 1), by cbv, by cbv, by simp [Expr.forms]⟩

end LinkedTables
