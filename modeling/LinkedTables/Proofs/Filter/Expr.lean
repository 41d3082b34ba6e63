import Mathlib
import LinkedTables.Filter.Expr

/-!
# Filters as trees

What the later files need of filter expressions, in three groups.

**Text.**  `Expr.write` gathers the text of a filter from left to right.  `Expr.chars` is the same
text put together from the texts of the parts, and `toList_text` says that the two agree.

**Nesting.**  `Expr.nesting` counts the parentheses and negations that are open at once in the text
of a filter.  A chain writes one pair of parentheses; a negation writes its sign and a pair.

**Columns.**  `Expr.induction` is the induction over filters, in which a chain is handled for all of
its terms at once.  With it the columns of a filter are those of its parts in order, and two ways to
replace them agree only if they agree on each (`mapColumns_eq_mapColumns_iff`).
-/

namespace LinkedTables

namespace Expr

variable {γ δ : Type}

/-! ## Text -/

mutual

/-- The characters of a filter. -/
def chars (columnText : γ → String) : Expr γ → List Char
  | compare column op literal =>
    (columnText column).toList ++ ' ' :: (op.text.toList ++ ' ' :: literal.literalChars)
  | and terms => '(' :: (chainChars columnText " & " terms ++ [')'])
  | or terms => '(' :: (chainChars columnText " | " terms ++ [')'])
  | not term => '~' :: '(' :: (chars columnText term ++ [')'])

/-- The characters of terms with a separator between any two. -/
def chainChars (columnText : γ → String) (separator : String) : List (Expr γ) → List Char
  | [] => []
  | term :: rest => chars columnText term ++ moreChars columnText separator rest

/-- The characters of the terms that follow the first one. -/
def moreChars (columnText : γ → String) (separator : String) : List (Expr γ) → List Char
  | [] => []
  | term :: rest =>
    separator.toList ++ (chars columnText term ++ moreChars columnText separator rest)

end

mutual

lemma toList_write (columnText : γ → String) : ∀ (out : String) (e : Expr γ),
    (e.write columnText out).toList = out.toList ++ e.chars columnText
  | out, compare column op literal => by simp [write, chars, String.toList_append]
  | out, and terms => by
      rw [write, String.toList_push, toList_writeAll columnText " & " (out.push '(') terms]
      simp [chars]
  | out, or terms => by
      rw [write, String.toList_push, toList_writeAll columnText " | " (out.push '(') terms]
      simp [chars]
  | out, not term => by
      rw [write, String.toList_push, toList_write columnText (out ++ "~(") term]
      simp [chars, String.toList_append]

lemma toList_writeAll (columnText : γ → String) (separator : String) :
    ∀ (out : String) (terms : List (Expr γ)),
    (writeAll columnText separator out terms).toList
      = out.toList ++ chainChars columnText separator terms
  | out, [] => by simp [writeAll, chainChars]
  | out, term :: rest => by
      rw [writeAll, toList_writeRest columnText separator (write columnText out term) rest,
        toList_write columnText out term]
      simp [chainChars]

lemma toList_writeRest (columnText : γ → String) (separator : String) :
    ∀ (out : String) (terms : List (Expr γ)),
    (writeRest columnText separator out terms).toList
      = out.toList ++ moreChars columnText separator terms
  | out, [] => by simp [writeRest, moreChars]
  | out, term :: rest => by
      rw [writeRest,
        toList_writeRest columnText separator (write columnText (out ++ separator) term) rest,
        toList_write columnText (out ++ separator) term]
      simp [moreChars, String.toList_append]

end

/-- The text of a filter is made of the texts of its parts. -/
lemma toList_text (columnText : γ → String) (e : Expr γ) :
    (e.text columnText).toList = e.chars columnText := by
  rw [text, toList_write]
  rfl

/-! ## Nesting -/

mutual

/-- How many parentheses and negations are open at once in the text of a filter. -/
def nesting : Expr γ → ℕ
  | compare .. => 0
  | and terms => chainNesting terms + 1
  | or terms => chainNesting terms + 1
  | not term => nesting term + 2

/-- How many are open at once in the texts of terms. -/
def chainNesting : List (Expr γ) → ℕ
  | [] => 0
  | term :: rest => max (nesting term) (chainNesting rest)

end

/-! ## Columns -/

/-- To show something of all filters, show it of comparisons, of chains whose terms all have it, and
of negations. -/
@[elab_as_elim, induction_eliminator]
lemma induction {motive : Expr γ → Prop}
    (compare : ∀ column op literal, motive (compare column op literal))
    (and : ∀ terms, (∀ term ∈ terms, motive term) → motive (and terms))
    (or : ∀ terms, (∀ term ∈ terms, motive term) → motive (or terms))
    (not : ∀ term, motive term → motive (not term)) (e : Expr γ) : motive e :=
  @Expr.rec γ motive (fun terms => ∀ term ∈ terms, motive term) compare and or not (by simp)
    (fun _ _ h hs => by simpa using ⟨h, hs⟩) e

mutual

lemma foldColumns_cons : ∀ (found : List γ) (e : Expr γ),
    e.foldColumns (fun found c => c :: found) found = e.columns.reverse ++ found
  | found, compare column op literal => rfl
  | found, and terms => by
      rw [columns, foldColumns, foldAllColumns_cons found terms, foldColumns,
        foldAllColumns_cons [] terms, List.append_nil, List.reverse_reverse]
  | found, or terms => by
      rw [columns, foldColumns, foldAllColumns_cons found terms, foldColumns,
        foldAllColumns_cons [] terms, List.append_nil, List.reverse_reverse]
  | found, not term => by
      rw [foldColumns, foldColumns_cons found term]
      rfl

lemma foldAllColumns_cons : ∀ (found : List γ) (terms : List (Expr γ)),
    foldAllColumns (fun found c => c :: found) found terms
      = (terms.flatMap columns).reverse ++ found
  | found, [] => rfl
  | found, term :: rest => by
      rw [foldAllColumns, foldColumns_cons found term, foldAllColumns_cons _ rest,
        List.flatMap_cons, List.reverse_append, List.append_assoc]

end

@[simp] lemma columns_compare (column : γ) (op : Comparator) (literal : Cell) :
    (compare column op literal).columns = [column] := rfl

@[simp] lemma columns_and (terms : List (Expr γ)) :
    (and terms).columns = terms.flatMap columns := by
  rw [columns, foldColumns, foldAllColumns_cons, List.append_nil, List.reverse_reverse]

@[simp] lemma columns_or (terms : List (Expr γ)) :
    (or terms).columns = terms.flatMap columns := by
  rw [columns, foldColumns, foldAllColumns_cons, List.append_nil, List.reverse_reverse]

@[simp] lemma columns_not (term : Expr γ) : (not term).columns = term.columns := rfl

lemma mem_columns_and {terms : List (Expr γ)} {term : Expr γ} {c : γ} (hterm : term ∈ terms)
    (hc : c ∈ term.columns) : c ∈ (and terms).columns := by
  rw [columns_and]
  exact List.mem_flatMap.2 ⟨term, hterm, hc⟩

lemma mem_columns_or {terms : List (Expr γ)} {term : Expr γ} {c : γ} (hterm : term ∈ terms)
    (hc : c ∈ term.columns) : c ∈ (or terms).columns := by
  rw [columns_or]
  exact List.mem_flatMap.2 ⟨term, hterm, hc⟩

lemma mapAllColumnsM_eq (f : γ → δ) (done : List (Expr δ)) (terms : List (Expr γ)) :
    mapAllColumnsM (m := Id) f done terms = done.reverse ++ terms.map (mapColumns f) := by
  induction terms generalizing done with
  | nil =>
    rw [mapAllColumnsM, List.map_nil, List.append_nil]
    rfl
  | cons term rest ih =>
    have h : mapAllColumnsM (m := Id) f done (term :: rest)
        = mapAllColumnsM (m := Id) f (mapColumns f term :: done) rest := by
      rw [mapAllColumnsM]
      rfl
    rw [h, ih]
    simp

@[simp] lemma mapColumns_compare (f : γ → δ) (column : γ) (op : Comparator) (literal : Cell) :
    (compare column op literal).mapColumns f = compare (f column) op literal := by
  rw [mapColumns, mapColumnsM]
  rfl

@[simp] lemma mapColumns_and (f : γ → δ) (terms : List (Expr γ)) :
    (and terms).mapColumns f = and (terms.map (mapColumns f)) := by
  have h := mapAllColumnsM_eq f [] terms
  rw [mapColumns, mapColumnsM, h]
  rfl

@[simp] lemma mapColumns_or (f : γ → δ) (terms : List (Expr γ)) :
    (or terms).mapColumns f = or (terms.map (mapColumns f)) := by
  have h := mapAllColumnsM_eq f [] terms
  rw [mapColumns, mapColumnsM, h]
  rfl

@[simp] lemma mapColumns_not (f : γ → δ) (term : Expr γ) :
    (not term).mapColumns f = not (term.mapColumns f) := by
  rw [mapColumns, mapColumnsM]
  rfl

/-- The columns of a filter are replaced where they stand. -/
lemma columns_mapColumns (f : γ → δ) (e : Expr γ) :
    (e.mapColumns f).columns = e.columns.map f := by
  have hall : ∀ terms : List (Expr γ),
      (∀ term ∈ terms, (term.mapColumns f).columns = term.columns.map f) →
      (terms.map (mapColumns f)).flatMap columns = (terms.flatMap columns).map f := by
    intro terms h
    rw [List.flatMap_map, List.map_flatMap]
    exact List.flatMap_congr h
  induction e with
  | compare column op literal => rw [mapColumns_compare, columns_compare, columns_compare]; rfl
  | and terms ih => rw [mapColumns_and, columns_and, columns_and, hall terms ih]
  | or terms ih => rw [mapColumns_or, columns_or, columns_or, hall terms ih]
  | not term ih => rw [mapColumns_not, columns_not, columns_not, ih]

/-- Two replacements in a row are one. -/
lemma mapColumns_mapColumns {ε : Type} (f : γ → δ) (g : δ → ε) (e : Expr γ) :
    (e.mapColumns f).mapColumns g = e.mapColumns fun c => g (f c) := by
  induction e with
  | compare column op literal => rw [mapColumns_compare, mapColumns_compare, mapColumns_compare]
  | and terms ih =>
    rw [mapColumns_and, mapColumns_and, mapColumns_and, List.map_map]
    exact congrArg and (List.map_congr_left ih)
  | or terms ih =>
    rw [mapColumns_or, mapColumns_or, mapColumns_or, List.map_map]
    exact congrArg or (List.map_congr_left ih)
  | not term ih => rw [mapColumns_not, mapColumns_not, mapColumns_not, ih]

/-- The nesting of a filter does not depend on its columns. -/
lemma nesting_mapColumns (f : γ → δ) (e : Expr γ) : (e.mapColumns f).nesting = e.nesting := by
  have hchain : ∀ terms : List (Expr γ),
      (∀ term ∈ terms, (term.mapColumns f).nesting = term.nesting) →
      chainNesting (terms.map (mapColumns f)) = chainNesting terms := by
    intro terms h
    induction terms with
    | nil => rfl
    | cons term rest ih =>
      rw [List.map_cons, chainNesting, chainNesting, h term (by simp),
        ih fun t ht => h t (List.mem_cons_of_mem term ht)]
  induction e with
  | compare column op literal => rw [mapColumns_compare, nesting, nesting]
  | and terms ih => rw [mapColumns_and, nesting, nesting, hchain terms ih]
  | or terms ih => rw [mapColumns_or, nesting, nesting, hchain terms ih]
  | not term ih => rw [mapColumns_not, nesting, nesting, ih]

/-- Two replacements give the same filter exactly if they agree on all of its columns. -/
lemma mapColumns_eq_mapColumns_iff {f g : γ → δ} (e : Expr γ) :
    e.mapColumns f = e.mapColumns g ↔ ∀ c ∈ e.columns, f c = g c := by
  induction e with
  | compare column op literal => simp
  | and terms ih =>
    simp only [mapColumns_and, and.injEq, List.map_inj_left, columns_and, List.mem_flatMap]
    exact ⟨fun h c ⟨term, ht, hc⟩ => (ih term ht).1 (h term ht) c hc,
      fun h term ht => (ih term ht).2 fun c hc => h c ⟨term, ht, hc⟩⟩
  | or terms ih =>
    simp only [mapColumns_or, or.injEq, List.map_inj_left, columns_or, List.mem_flatMap]
    exact ⟨fun h c ⟨term, ht, hc⟩ => (ih term ht).1 (h term ht) c hc,
      fun h term ht => (ih term ht).2 fun c hc => h c ⟨term, ht, hc⟩⟩
  | not term ih => simpa using ih

end Expr

end LinkedTables
