import Mathlib
import LinkedTables.Event
import LinkedTables.Proofs.Filter.Expr

/-!
# Computations without their log

No computation of the library looks at the log it writes.  `Traced.Returns x r` says that `x`
answers `r` whatever has been logged before, and the rules below follow a computation step by step:
an answer returns as it is, an event is passed over, and two steps in a row return what their
answers give in a row.  With them each traced function is replaced by its answer once, and nothing
after it speaks of a log.

Two kinds of loops have answers that may fail at every step.

* **Folds.**  What every step keeps holds at the end of a fold (`foldlM_keeps`), and also at the
  step at which it fails (`exists_of_foldlM_error`), up to which it has succeeded.  Two folds are
  compared step by step, where all that is known of a step is that it starts from what the steps
  before it have kept (`foldlM_congr_of_keeps`).
* **The replacement of the columns of a filter.**  What it says of each column when it succeeds,
  that one of the columns fails when it does, and that it succeeds if it does so for each column.
-/

namespace LinkedTables

/-- Two steps in a row succeed if each does. -/
lemma eq_ok_of_bind {ε α β : Type} {x : Except ε α} {f : α → Except ε β} {b : β}
    (h : x >>= f = .ok b) : ∃ a, x = .ok a ∧ f a = .ok b := by
  cases x with
  | error e => cases h
  | ok a => exact ⟨a, rfl, h⟩

lemma bind_eq_ok_iff {ε α β : Type} {x : Except ε α} {f : α → Except ε β} {b : β} :
    x >>= f = .ok b ↔ ∃ a, x = .ok a ∧ f a = .ok b := by
  refine ⟨eq_ok_of_bind, ?_⟩
  rintro ⟨a, rfl, h⟩
  exact h

/-- Two steps in a row fail if one does. -/
lemma eq_error_of_bind {ε α β : Type} {x : Except ε α} {f : α → Except ε β} {e : ε}
    (h : x >>= f = .error e) : x = .error e ∨ ∃ a, x = .ok a ∧ f a = .error e := by
  cases x with
  | error e' =>
    cases h
    exact Or.inl rfl
  | ok a => exact Or.inr ⟨a, rfl, h⟩

/-- What is done at each step of a fold matters only on the list. -/
lemma foldlM_congr {m : Type → Type} [Monad m] {α β : Type} {f g : β → α → m β} {as : List α}
    (h : ∀ b, ∀ a ∈ as, f b a = g b a) (b : β) : as.foldlM f b = as.foldlM g b := by
  induction as generalizing b with
  | nil => rfl
  | cons a rest ih =>
    rw [List.foldlM_cons, List.foldlM_cons, h b a (List.mem_cons_self ..)]
    exact bind_congr fun b' => ih (fun b a ha => h b a (List.mem_cons_of_mem _ ha)) b'

section Folds

variable {ε α β : Type} {f : β → α → Except ε β} {as : List α} {P : β → Prop}

/-- What every step keeps holds at the end. -/
lemma foldlM_keeps (hstep : ∀ {b a b'}, a ∈ as → P b → f b a = .ok b' → P b') :
    ∀ {b b'}, P b → as.foldlM f b = .ok b' → P b' := by
  induction as with
  | nil =>
    intro b b' hb h
    cases h
    exact hb
  | cons a rest ih =>
    intro b b' hb h
    rw [List.foldlM_cons] at h
    rcases eq_ok_of_bind h with ⟨b₁, hfirst, hrest⟩
    exact ih (fun ha => hstep (List.mem_cons_of_mem a ha))
      (hstep (List.mem_cons_self ..) hb hfirst) hrest

/-- A fold that fails has succeeded up to the step at which it does. -/
lemma exists_append_of_foldlM_error {e : ε} :
    ∀ {b}, as.foldlM f b = .error e → ∃ before a after, as = before ++ a :: after
      ∧ ∃ b', before.foldlM f b = .ok b' ∧ f b' a = .error e := by
  induction as with
  | nil =>
    intro b h
    cases h
  | cons a rest ih =>
    intro b h
    rw [List.foldlM_cons] at h
    rcases eq_error_of_bind h with h | ⟨b₁, hfirst, hrest⟩
    · exact ⟨[], a, rest, rfl, b, rfl, h⟩
    · rcases ih hrest with ⟨before, a', after, rfl, b', hbefore, hfails⟩
      refine ⟨a :: before, a', after, rfl, b', ?_, hfails⟩
      rw [List.foldlM_cons, hfirst]
      exact hbefore

/-- A fold fails at one of its steps, and what every step keeps holds there. -/
lemma exists_of_foldlM_error {e : ε} (hstep : ∀ {b a b'}, a ∈ as → P b → f b a = .ok b' → P b')
    {b : β} (hb : P b) (h : as.foldlM f b = .error e) :
    ∃ b' a, P b' ∧ a ∈ as ∧ f b' a = .error e := by
  rcases exists_append_of_foldlM_error h with ⟨before, a, after, rfl, b', hbefore, hfails⟩
  have hb' : P b' := foldlM_keeps (fun ha => hstep (List.mem_append_left _ ha)) hb hbefore
  exact ⟨b', a, hb', List.mem_append_right _ (List.mem_cons_self ..), hfails⟩

/-- A fold succeeds where another one does if each of its steps does. -/
lemma foldlM_eq_ok_of_step {g : β → α → Except ε β}
    (hstep : ∀ {b a b'}, f b a = .ok b' → g b a = .ok b') :
    ∀ {b b'}, as.foldlM f b = .ok b' → as.foldlM g b = .ok b' := by
  induction as with
  | nil => exact fun h => h
  | cons a rest ih =>
    intro b b' h
    rw [List.foldlM_cons] at h ⊢
    rcases eq_ok_of_bind h with ⟨b₁, hfirst, hrest⟩
    rw [hstep hfirst]
    exact ih hrest

/-- Folds whose steps agree on what every step keeps. -/
lemma foldlM_congr_of_keeps {g : β → α → Except ε β}
    (hstep : ∀ {b a b'}, a ∈ as → P b → f b a = .ok b' → P b')
    (hsame : ∀ {b a}, a ∈ as → P b → g b a = f b a) :
    ∀ {b}, P b → as.foldlM g b = as.foldlM f b := by
  induction as with
  | nil => exact fun _ => rfl
  | cons a rest ih =>
    intro b hb
    rw [List.foldlM_cons, List.foldlM_cons, hsame (List.mem_cons_self ..) hb]
    cases hfirst : f b a with
    | error x => rfl
    | ok b₁ =>
      exact ih (fun ha => hstep (List.mem_cons_of_mem a ha))
        (fun ha => hsame (List.mem_cons_of_mem a ha))
        (hstep (List.mem_cons_self ..) hb hfirst)

/-- A fold that succeeds has done so at each of its steps, and behind it. -/
lemma exists_of_mem_foldlM {a : α} {b b' : β} (h : as.foldlM f b = .ok b') (ha : a ∈ as) :
    ∃ b₁ b₂, ∃ rest : List α, f b₁ a = .ok b₂ ∧ rest.foldlM f b₂ = .ok b' := by
  rcases List.append_of_mem ha with ⟨before, rest, rfl⟩
  rw [List.foldlM_append] at h
  rcases eq_ok_of_bind h with ⟨b₁, -, h⟩
  rw [List.foldlM_cons] at h
  rcases eq_ok_of_bind h with ⟨b₂, hfirst, hrest⟩
  exact ⟨b₁, b₂, rest, hfirst, hrest⟩

end Folds

namespace Traced

variable {α β γ δ : Type}

/-- The answer of a computation does not depend on the log. -/
def Returns (x : Traced α) (r : Except Failure α) : Prop := ∀ log, (x.run.run log).1 = r

lemma Returns.result {x : Traced α} {r : Except Failure α} (h : x.Returns r) : x.result = r :=
  h #[]

lemma Returns.self {x : Traced α} {r : Except Failure α} (h : x.Returns r) :
    x.Returns x.result := by
  rwa [h.result]

lemma returns_answer (r : Except Failure α) : Returns (answer r) r := by
  intro log
  rfl

lemma returns_pure (a : α) : Returns (pure a) (.ok a) := by
  intro log
  rfl

lemma returns_throw (f : Failure) : Returns (throw f : Traced α) (.error f) := by
  intro log
  rfl

lemma run_bind (x : Traced α) (f : α → Traced β) (log : Array Event) :
    (x >>= f).run.run log
      = (ExceptT.bindCont f (x.run.run log).1).run (x.run.run log).2 := rfl

lemma Returns.bind {x : Traced α} {r : Except Failure α} {f : α → Traced β}
    {g : α → Except Failure β} (hx : x.Returns r) (hf : ∀ a, (f a).Returns (g a)) :
    Returns (x >>= f) (r >>= g) := by
  intro log
  rw [run_bind, hx log]
  cases r with
  | error e => rfl
  | ok a => exact hf a _

lemma Returns.bind_ok {x : Traced α} {a : α} {f : α → Traced β} {r : Except Failure β}
    (hx : x.Returns (.ok a)) (hf : (f a).Returns r) : Returns (x >>= f) r := by
  intro log
  rw [run_bind, hx log]
  exact hf _

/-- What comes after a failure is not carried out. -/
lemma Returns.bind_error {x : Traced α} {e : Failure} (hx : x.Returns (.error e))
    (f : α → Traced β) : Returns (x >>= f) (.error e) := by
  intro log
  rw [run_bind, hx log]
  rfl

/-- An event does not change what is answered. -/
lemma Returns.after_emit {x : Unit → Traced β} {r : Except Failure β} (e : Event)
    (h : (x ()).Returns r) : Returns (emit e >>= x) r := by
  intro log
  exact h (log.push e)

lemma Returns.foldlM {f : β → α → Traced β} {g : β → α → Except Failure β}
    (h : ∀ b a, (f b a).Returns (g b a)) {as : List α} :
    ∀ {b : β}, Returns (as.foldlM f b) (as.foldlM g b) := by
  induction as with
  | nil =>
    intro b
    exact returns_pure b
  | cons a rest ih =>
    intro b
    rw [List.foldlM_cons, List.foldlM_cons]
    exact (h b a).bind fun b' => ih

lemma Returns.mapColumnsM {f : γ → Traced δ} {g : γ → Except Failure δ}
    (h : ∀ c, (f c).Returns (g c)) (e : Expr γ) :
    Returns (e.mapColumnsM f) (e.mapColumnsM g) := by
  have hall : ∀ terms : List (Expr γ),
      (∀ term ∈ terms, Returns (term.mapColumnsM f) (term.mapColumnsM g)) →
      ∀ done, Returns (Expr.mapAllColumnsM f done terms) (Expr.mapAllColumnsM g done terms) := by
    intro terms hterms
    induction terms with
    | nil =>
      intro done
      exact returns_pure done.reverse
    | cons term rest ih =>
      intro done
      rw [Expr.mapAllColumnsM, Expr.mapAllColumnsM]
      exact (hterms term (by simp)).bind fun e =>
        ih (fun t ht => hterms t (List.mem_cons_of_mem term ht)) (e :: done)
  induction e with
  | compare column op literal =>
    rw [Expr.mapColumnsM, Expr.mapColumnsM]
    exact (h column).bind fun c => returns_pure _
  | and terms ih =>
    rw [Expr.mapColumnsM, Expr.mapColumnsM]
    exact (hall terms ih []).bind fun es => returns_pure _
  | or terms ih =>
    rw [Expr.mapColumnsM, Expr.mapColumnsM]
    exact (hall terms ih []).bind fun es => returns_pure _
  | not term ih =>
    rw [Expr.mapColumnsM, Expr.mapColumnsM]
    exact ih.bind fun e => returns_pure _

end Traced

/-! ## Replacing columns -/

namespace Expr

section

variable {γ δ : Type}

/-- What replaces the columns of a filter matters only on its columns. -/
lemma mapColumnsM_congr {m : Type → Type} [Monad m] {f g : γ → m δ} {e : Expr γ}
    (h : ∀ c ∈ e.columns, f c = g c) : e.mapColumnsM f = e.mapColumnsM g := by
  have hall : ∀ terms : List (Expr γ),
      (∀ term ∈ terms, term.mapColumnsM f = term.mapColumnsM g) →
      ∀ done, mapAllColumnsM f done terms = mapAllColumnsM g done terms := by
    intro terms
    induction terms with
    | nil => exact fun _ _ => rfl
    | cons term rest ih =>
      intro hterms done
      rw [mapAllColumnsM, mapAllColumnsM, hterms term (List.mem_cons_self ..)]
      exact bind_congr fun e => ih (fun t ht => hterms t (List.mem_cons_of_mem _ ht)) _
  induction e with
  | compare column op literal => rw [mapColumnsM, mapColumnsM, h column (by simp)]
  | and terms ih =>
    have hterms := hall terms fun term ht => ih term ht fun c hc => h c (mem_columns_and ht hc)
    rw [mapColumnsM, mapColumnsM, hterms]
  | or terms ih =>
    have hterms := hall terms fun term ht => ih term ht fun c hc => h c (mem_columns_or ht hc)
    rw [mapColumnsM, mapColumnsM, hterms]
  | not term ih => rw [mapColumnsM, mapColumnsM, ih h]

end

variable {ε γ δ : Type} {f : γ → Except ε δ}

lemma forall₂_of_mapAllColumnsM {terms : List (Expr γ)} :
    ∀ {done es : List (Expr δ)}, mapAllColumnsM f done terms = .ok es →
      ∃ es', es = done.reverse ++ es' ∧
        List.Forall₂ (fun term e => term.mapColumnsM f = .ok e) terms es' := by
  induction terms with
  | nil =>
    intro done es h
    rw [mapAllColumnsM] at h
    cases h
    exact ⟨[], by simp, .nil⟩
  | cons term rest ih =>
    intro done es h
    rw [mapAllColumnsM] at h
    rcases eq_ok_of_bind h with ⟨e, he, h⟩
    rcases ih h with ⟨es', rfl, hes'⟩
    exact ⟨e :: es', by simp, .cons he hes'⟩

/-- Where a replacement succeeds, every old column was replaced. -/
lemma exists_ok_of_mapColumnsM {e : Expr γ} :
    ∀ {e' : Expr δ}, e.mapColumnsM f = .ok e' → ∀ c ∈ e.columns, ∃ d, f c = .ok d := by
  have hall : ∀ (terms : List (Expr γ)) (es : List (Expr δ)),
      (∀ term ∈ terms, ∀ {e' : Expr δ}, term.mapColumnsM f = .ok e' →
        ∀ c ∈ term.columns, ∃ d, f c = .ok d) →
      List.Forall₂ (fun term e => term.mapColumnsM f = .ok e) terms es →
      ∀ c ∈ terms.flatMap columns, ∃ d, f c = .ok d := by
    intro terms es hterms hes c hc
    rcases List.mem_flatMap.1 hc with ⟨term, hterm, hc⟩
    rcases List.mem_iff_getElem.1 hterm with ⟨i, hi, rfl⟩
    have hlen := hes.length_eq
    exact hterms terms[i] hterm (hes.get hi (by omega)) c hc
  induction e with
  | compare column op literal =>
    intro e' h c hc
    rw [mapColumnsM] at h
    rcases eq_ok_of_bind h with ⟨d, hd, -⟩
    rw [columns_compare, List.mem_singleton] at hc
    exact ⟨d, hc ▸ hd⟩
  | and terms ih =>
    intro e' h c hc
    rw [mapColumnsM] at h
    rcases eq_ok_of_bind h with ⟨es, hes, -⟩
    rcases forall₂_of_mapAllColumnsM hes with ⟨es', -, hforall⟩
    rw [columns_and] at hc
    exact hall terms es' ih hforall c hc
  | or terms ih =>
    intro e' h c hc
    rw [mapColumnsM] at h
    rcases eq_ok_of_bind h with ⟨es, hes, -⟩
    rcases forall₂_of_mapAllColumnsM hes with ⟨es', -, hforall⟩
    rw [columns_or] at hc
    exact hall terms es' ih hforall c hc
  | not term ih =>
    intro e' h c hc
    rw [mapColumnsM] at h
    rcases eq_ok_of_bind h with ⟨e, he, -⟩
    exact ih he c hc

lemma exists_of_mapAllColumnsM_error {x : ε} {terms : List (Expr γ)} :
    ∀ {done : List (Expr δ)}, mapAllColumnsM f done terms = .error x →
      ∃ term ∈ terms, term.mapColumnsM f = .error x := by
  induction terms with
  | nil =>
    intro done h
    rw [mapAllColumnsM] at h
    cases h
  | cons term rest ih =>
    intro done h
    rw [mapAllColumnsM] at h
    rcases eq_error_of_bind h with h | ⟨e, -, h⟩
    · exact ⟨term, by simp, h⟩
    · rcases ih h with ⟨term', hterm', h⟩
      exact ⟨term', List.mem_cons_of_mem term hterm', h⟩

/-- Where a replacement fails, it does so as one of the columns does. -/
lemma exists_of_mapColumnsM_error {x : ε} {e : Expr γ} (h : e.mapColumnsM f = .error x) :
    ∃ c ∈ e.columns, f c = .error x := by
  induction e with
  | compare column op literal =>
    rw [mapColumnsM] at h
    rcases eq_error_of_bind h with h | ⟨c, -, h⟩
    · exact ⟨column, by simp, h⟩
    · cases h
  | and terms ih =>
    rw [mapColumnsM] at h
    rcases eq_error_of_bind h with h | ⟨es, -, h⟩
    · rcases exists_of_mapAllColumnsM_error h with ⟨term, hterm, h⟩
      rcases ih term hterm h with ⟨c, hc, h⟩
      exact ⟨c, mem_columns_and hterm hc, h⟩
    · cases h
  | or terms ih =>
    rw [mapColumnsM] at h
    rcases eq_error_of_bind h with h | ⟨es, -, h⟩
    · rcases exists_of_mapAllColumnsM_error h with ⟨term, hterm, h⟩
      rcases ih term hterm h with ⟨c, hc, h⟩
      exact ⟨c, mem_columns_or hterm hc, h⟩
    · cases h
  | not term ih =>
    rw [mapColumnsM] at h
    rcases eq_error_of_bind h with h | ⟨e, -, h⟩
    · exact ih h
    · cases h

/-- A replacement that succeeds for every column succeeds for the filter. -/
lemma mapColumnsM_eq_ok {g : γ → δ} {e : Expr γ} (h : ∀ c ∈ e.columns, f c = .ok (g c)) :
    e.mapColumnsM f = .ok (e.mapColumns g) := by
  have hall : ∀ (terms : List (Expr γ)) (done : List (Expr δ)),
      (∀ term ∈ terms, term.mapColumnsM f = .ok (term.mapColumns g)) →
      mapAllColumnsM f done terms = .ok (done.reverse ++ terms.map (mapColumns g)) := by
    intro terms
    induction terms with
    | nil =>
      intro done _
      rw [mapAllColumnsM, List.map_nil, List.append_nil]
      rfl
    | cons term rest ih =>
      intro done hterms
      rw [mapAllColumnsM, hterms term (by simp)]
      have hrest := ih (term.mapColumns g :: done) fun t ht =>
        hterms t (List.mem_cons_of_mem term ht)
      rw [List.reverse_cons, List.append_assoc] at hrest
      exact hrest
  induction e with
  | compare column op literal =>
    rw [mapColumnsM, h column (by simp), mapColumns_compare]
    rfl
  | and terms ih =>
    have hterms := hall terms [] fun term ht => ih term ht fun c hc =>
      h c (mem_columns_and ht hc)
    rw [mapColumnsM, hterms, mapColumns_and]
    rfl
  | or terms ih =>
    have hterms := hall terms [] fun term ht => ih term ht fun c hc =>
      h c (mem_columns_or ht hc)
    rw [mapColumnsM, hterms, mapColumns_or]
    rfl
  | not term ih =>
    rw [mapColumnsM, ih h, mapColumns_not]
    rfl

/-- A replacement succeeds exactly if it does so for every column, and then each column is replaced
where it stands. -/
lemma mapColumnsM_eq_ok_iff {g : γ → δ} (hg : ∀ {c d}, f c = .ok d → g c = d) {e : Expr γ}
    {e' : Expr δ} :
    e.mapColumnsM f = .ok e' ↔ (∀ c ∈ e.columns, ∃ d, f c = .ok d) ∧ e' = e.mapColumns g := by
  have hmap : (∀ c ∈ e.columns, ∃ d, f c = .ok d) → e.mapColumnsM f = .ok (e.mapColumns g) := by
    intro hcolumns
    refine mapColumnsM_eq_ok fun c hc => ?_
    rcases hcolumns c hc with ⟨d, hd⟩
    rw [hd, hg hd]
  constructor
  · intro h
    have hcolumns := exists_ok_of_mapColumnsM h
    refine ⟨hcolumns, ?_⟩
    rw [hmap hcolumns] at h
    cases h
    rfl
  · rintro ⟨hcolumns, rfl⟩
    exact hmap hcolumns

/-- Where a replacement succeeds, every new column was made of an old one. -/
lemma exists_of_mapColumnsM {e : Expr γ} {e' : Expr δ} (h : e.mapColumnsM f = .ok e') :
    ∀ d ∈ e'.columns, ∃ c ∈ e.columns, f c = .ok d := by
  intro d hd
  let g : γ → δ := fun c => (f c).toOption.getD d
  have hg : ∀ {c d'}, f c = .ok d' → g c = d' := by
    intro c d' hc
    simp [g, hc, Except.toOption]
  rcases (mapColumnsM_eq_ok_iff hg).1 h with ⟨hcolumns, rfl⟩
  rw [columns_mapColumns] at hd
  rcases List.mem_map.1 hd with ⟨c, hc, hcd⟩
  rcases hcolumns c hc with ⟨d', hd'⟩
  exact ⟨c, hc, by rw [hd', ← hg hd', hcd]⟩

end Expr

end LinkedTables
