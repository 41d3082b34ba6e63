import Mathlib
import LinkedTables.Proofs.Filter.Expr
import LinkedTables.Proofs.Filter.Lexemes

/-!
# The text of a filter, read again

What the text of a filter is read as, in three groups.

**References.**  A reference is written as its segments, with `self` in front of a column of the
home table.  `Reference.Form.reread` is what the segments stand for when they are read: a leading
`self` is dropped, whoever wrote it.  `reread_eq_self_iff` tells which references come back as they
were.

**Accepted filters.**  `Expr.WellFormed` holds of every filter that has a derivation from
well-formed tokens (`wellFormed_of_derives`).

**Reading.**  `Reads` is `Derives` for texts: the text is lexed as tokens that have a derivation.
Its rules follow the grammar, and the text of a filter is put together by them (`reads_chars`):
**it is read with the nesting of the filter**, and as the same filter but for its references.
-/

namespace LinkedTables

open Text

/-! ## References -/

namespace Reference.Form

/-- The segments as which a reference is written. -/
def segments : Form → List String
  | plain name => [name]
  | path segments name => segments ++ [name]
  | home name => ["self", name]

/-- What the segments of a reference are read as. -/
def reread : Form → Form
  | path (first :: rest) name =>
    if first = "self" then if rest = [] then home name else path rest name
    else path (first :: rest) name
  | form => form

/-- A path that begins with a relation called `self`. -/
def StartsWithSelf (form : Form) : Prop := ∃ rest name, form = path ("self" :: rest) name

/-- The references that can be read: their segments are names, a path has one before the column, and
a name alone is no keyword. -/
def WellFormed : Form → Prop
  | plain name => IsName name ∧ Token.keyword? name = none
  | path segments name => segments ≠ [] ∧ (∀ s ∈ segments, IsName s) ∧ IsName name
  | home name => IsName name

/-- **A reference comes back as it was** unless it is a path that begins with `self`. -/
lemma reread_eq_self_iff (form : Form) : form.reread = form ↔ ¬ form.StartsWithSelf := by
  cases form with
  | plain name => simp [reread, StartsWithSelf]
  | home name => simp [reread, StartsWithSelf]
  | path segments name =>
    cases segments with
    | nil => simp [reread, StartsWithSelf]
    | cons first rest =>
      by_cases hself : first = "self"
      · simp only [reread, StartsWithSelf, hself, if_true, path.injEq, List.cons.injEq, true_and]
        refine iff_of_false (fun h => ?_) (not_not_intro ⟨rest, name, rfl, rfl⟩)
        split_ifs at h
        · simp at h
      · simp [reread, StartsWithSelf, hself]

end Reference.Form

namespace Reference

open Form

lemma text_eq (r : Reference) (h : r.form.WellFormed) :
    r.text = ".".intercalate r.form.segments := by
  obtain ⟨form, position⟩ := r
  cases form with
  | plain name => simp [text, segments]
  | home name => simp [text, segments, String.intercalate_cons_of_ne_nil]
  | path segments name =>
    have hne : segments ≠ [] := h.1
    simp [text, Form.segments, String.intercalate_append_of_ne_nil hne]

lemma form_ofPath_cons (first second : String) (more : List String) (position : ℕ) :
    (ofPath first (second :: more) position).form =
      if first = "self" then
        if more = [] then home second else path (second :: more).dropLast (more.getLastD second)
      else path (first :: second :: more).dropLast (more.getLastD second) := by
  simp only [ofPath]
  split_ifs with hself hmore
  · rw [hmore]
  · cases more with
    | nil => exact absurd rfl hmore
    | cons third more => rfl
  · rfl

/-- The segments of a reference are read as `reread` says. -/
lemma form_ofPath {form : Form} (h : form.WellFormed) {first : String} {others : List String}
    (hsegments : form.segments = first :: others) (position : ℕ) :
    (ofPath first others position).form = form.reread := by
  cases form with
  | plain name =>
    cases hsegments
    rfl
  | home name =>
    cases hsegments
    rfl
  | path segments name =>
    obtain ⟨s, rest, rfl⟩ := List.exists_cons_of_ne_nil h.1
    simp only [Form.segments, List.cons_append, List.cons.injEq] at hsegments
    rcases hsegments with ⟨rfl, rfl⟩
    cases rest with
    | nil => exact form_ofPath_cons s name [] position
    | cons t rest =>
      rw [List.cons_append, form_ofPath_cons]
      simp [reread, List.dropLast_cons_of_ne_nil]

/-- What a path of names is read as can be written down again. -/
lemma wellFormed_ofPath {first : String} {others : List String}
    (h : (Token.column first others).WellFormed) (position : ℕ) :
    (ofPath first others position).form.WellFormed := by
  obtain ⟨hnames, hkeyword⟩ := h
  cases others with
  | nil => exact ⟨hnames first (by simp), hkeyword rfl⟩
  | cons second more =>
    have hlast : more.getLastD second ∈ second :: more := by
      have hmem := List.getLast_mem (List.cons_ne_nil second more)
      rwa [List.getLast_eq_getLastD] at hmem
    rw [form_ofPath_cons]
    split_ifs with hself hmore
    · exact hnames second (by simp)
    · refine ⟨?_, fun s hs => ?_, ?_⟩
      · simp [List.dropLast_cons_of_ne_nil hmore]
      · exact hnames s (List.mem_cons_of_mem first (List.mem_of_mem_dropLast hs))
      · exact hnames _ (List.mem_cons_of_mem first hlast)
    · refine ⟨by simp, fun s hs => ?_, ?_⟩
      · exact hnames s (List.mem_of_mem_dropLast hs)
      · exact hnames _ (List.mem_cons_of_mem first hlast)

end Reference

/-! ## Accepted filters -/

/-- The filters that can be accepted: chains have two terms at least, references are made of names,
and literals have a text. -/
inductive Expr.WellFormed : Expr Reference → Prop
  | compare {r : Reference} {op : Comparator} {value : Cell} :
      r.form.WellFormed → value.Writable → WellFormed (.compare r op value)
  | and {terms : List (Expr Reference)} :
      2 ≤ terms.length → (∀ term ∈ terms, WellFormed term) → WellFormed (.and terms)
  | or {terms : List (Expr Reference)} :
      2 ≤ terms.length → (∀ term ∈ terms, WellFormed term) → WellFormed (.or terms)
  | not {term : Expr Reference} : WellFormed term → WellFormed (.not term)

lemma wellFormed_of_isComparison {ts : List PlacedToken} {e : Expr Reference}
    (h : IsComparison ts e) (hts : ∀ t ∈ ts, t.token.WellFormed) : e.WellFormed := by
  cases h with
  | columnFirst first rest op value p q r =>
    have hcolumn : (Token.column first rest).WellFormed := hts ⟨_, p⟩ (by simp)
    have hvalue : (Token.literal value).WellFormed := hts ⟨_, r⟩ (by simp)
    exact .compare (Reference.wellFormed_ofPath hcolumn p) hvalue
  | literalFirst first rest op value p q r =>
    have hcolumn : (Token.column first rest).WellFormed := hts ⟨_, r⟩ (by simp)
    have hvalue : (Token.literal value).WellFormed := hts ⟨_, p⟩ (by simp)
    exact .compare (Reference.wellFormed_ofPath hcolumn r) hvalue

lemma wellFormed_node (c : Connective) {terms : List (Expr Reference)} (hlen : 2 ≤ terms.length)
    (h : ∀ term ∈ terms, term.WellFormed) : (c.node terms).WellFormed := by
  cases c with
  | and => exact .and hlen h
  | or => exact .or hlen h

/-- **What is derived from well-formed tokens is well-formed.** -/
theorem wellFormed_of_derives {k : Phrase} {d : ℕ} {ts : List PlacedToken}
    {es : List (Expr Reference)} (h : Derives k d ts es) (hts : ∀ t ∈ ts, t.token.WellFormed) :
    ∀ e ∈ es, e.WellFormed := by
  induction h with
  | comparison hc => simpa using wellFormed_of_isComparison hc hts
  | negation p _ ih =>
    have he := ih fun t ht => hts t (List.mem_cons_of_mem _ ht)
    simpa using Expr.WellFormed.not (he _ (by simp))
  | parentheses p q _ ih => exact ih fun t ht => hts t (by simp [ht])
  | noMore => simp
  | more p _ _ ih ih' =>
    have he := ih fun t ht => hts t (by simp [ht])
    have hes := ih' fun t ht => hts t (by simp [ht])
    simpa using ⟨he _ (by simp), hes⟩
  | single _ ih => exact ih hts
  | @several c _ _ _ _ _ _ _ _ _ ih ih' =>
    have he := ih fun t ht => hts t (by simp [ht])
    have hes := ih' fun t ht => hts t (by simp [ht])
    intro e' he'
    rw [List.mem_singleton.1 he']
    exact wellFormed_node c (by simp) (List.forall_mem_cons.2 ⟨he _ (by simp), hes⟩)

/-! ## Reading -/

namespace Expr

/-- A filter without the positions of its references. -/
def forms (e : Expr Reference) : Expr Reference.Form := e.mapColumns Reference.form

/-- What a filter is read as when its text is read. -/
def reread (e : Expr Reference) : Expr Reference.Form := e.mapColumns fun r => r.form.reread

lemma reread_and (terms : List (Expr Reference)) :
    (and terms).reread = and (terms.map reread) := mapColumns_and _ terms

lemma reread_or (terms : List (Expr Reference)) :
    (or terms).reread = or (terms.map reread) := mapColumns_or _ terms

/-- **A filter comes back as it was** unless one of its references is a path that begins with
`self`. -/
lemma reread_eq_forms_iff (e : Expr Reference) :
    e.reread = e.forms ↔ ∀ r ∈ e.columns, ¬ r.form.StartsWithSelf := by
  simp only [reread, forms, mapColumns_eq_mapColumns_iff, Reference.Form.reread_eq_self_iff]

end Expr

/-- `Reads k d cs fs`: in front of a boundary, the text `cs` is lexed as tokens that are a phrase of
kind `k` with `d` levels open at once, and that stand for the filters `fs`. -/
def Reads (k : Phrase) (d : ℕ) (cs : List Char) (fs : List (Expr Reference.Form)) : Prop :=
  ∃ ts, (∀ rest, Boundary rest → Lexes (cs ++ rest) ts rest) ∧
    ∀ placed : List PlacedToken, placed.map PlacedToken.token = ts →
      ∃ es, Derives k d placed es ∧ es.map Expr.forms = fs

namespace Reads

variable {k : Phrase} {c : Connective} {d d' : ℕ} {cs cs' : List Char}
  {f : Expr Reference.Form} {fs : List (Expr Reference.Form)}

lemma boundary_nil : Boundary [] := by simp [Boundary]

lemma boundary_blank (rest : List Char) : Boundary (' ' :: rest) := by simp [Boundary]

lemma boundary_paren (rest : List Char) : Boundary (')' :: rest) := by simp [Boundary]

/-- A text that stands for one filter is read as one. -/
lemma exists_single (h : Reads k d cs [f]) :
    ∃ ts, (∀ rest, Boundary rest → Lexes (cs ++ rest) ts rest) ∧
      ∀ placed : List PlacedToken, placed.map PlacedToken.token = ts →
        ∃ e, Derives k d placed [e] ∧ e.forms = f := by
  obtain ⟨ts, hlexes, hderives⟩ := h
  refine ⟨ts, hlexes, fun placed hplaced => ?_⟩
  obtain ⟨es, hd, hes⟩ := hderives placed hplaced
  obtain ⟨e, rfl, he⟩ := List.map_eq_singleton_iff.1 hes
  exact ⟨e, hd, he⟩

lemma exists_segments {form : Reference.Form} (h : form.WellFormed) :
    ∃ first others, form.segments = first :: others ∧ (∀ s ∈ first :: others, IsName s)
      ∧ Token.ofPath first others = .column first others := by
  cases form with
  | plain name =>
    refine ⟨name, [], rfl, by simpa using h.1, ?_⟩
    rw [Token.ofPath, h.2]
    rfl
  | home name =>
    have hself : IsName "self" :=
      ⟨'s', ['e', 'l', 'f'], rfl, by decide, List.all_eq_true.1 (by decide)⟩
    have hname : IsName name := h
    exact ⟨"self", [name], rfl, List.forall_mem_cons.2 ⟨hself, by simpa using hname⟩, rfl⟩
  | path segments name =>
    obtain ⟨hne, hsegments, hname⟩ := h
    obtain ⟨first, rest, rfl⟩ := List.exists_cons_of_ne_nil hne
    refine ⟨first, rest ++ [name], rfl, fun s hs => ?_, by cases rest <;> rfl⟩
    rw [← List.cons_append] at hs
    rcases List.mem_append.1 hs with hs | hs
    · exact hsegments s hs
    · rw [List.mem_singleton.1 hs]
      exact hname

lemma lexes_operator (op : Comparator) (rest : List Char) :
    Lexes (op.text.toList ++ ' ' :: rest) [.comparator op] (' ' :: rest) :=
  Lexes.lexeme (by cases op <;> rfl) (by simp)

lemma lexes_literal {value : Cell} (h : value.Writable) {rest : List Char}
    (hrest : Boundary rest) : Lexes (value.literalChars ++ rest) [.literal value] rest :=
  Lexes.lexeme (Token.scan_literal h hrest) (by simp)

lemma comparison {r : Reference} {op : Comparator} {value : Cell} (hr : r.form.WellFormed)
    (hvalue : value.Writable) :
    Reads .term 0 ((Expr.compare r op value).chars Reference.text)
      [.compare r.form.reread op value] := by
  obtain ⟨first, others, hsegments, hnames, hpath⟩ := exists_segments hr
  refine ⟨[.column first others, .comparator op, .literal value], fun rest hrest => ?_,
    fun placed hplaced => ?_⟩
  · have hcolumn : ∀ tail, Lexes (r.text.toList ++ ' ' :: tail) [.column first others]
        (' ' :: tail) := by
      intro tail
      rw [Reference.text_eq r hr, hsegments, Token.toList_intercalate_dot]
      refine Lexes.lexeme ?_ (by simp)
      rw [Token.scan_path hnames (boundary_blank _).endsWord, hpath]
    have hoperator := (lexes_operator op (value.literalChars ++ rest)).blank
      (show isBlank ' ' = true by decide)
    have hliteral := (lexes_literal hvalue hrest).blank (show isBlank ' ' = true by decide)
    have h := (hcolumn _).append (hoperator.append hliteral)
    simpa [Expr.chars] using h
  · obtain ⟨t, ts, rfl, ht, hts⟩ := List.map_eq_cons_iff.1 hplaced
    obtain ⟨u, us, rfl, hu, hus⟩ := List.map_eq_cons_iff.1 hts
    obtain ⟨v, rfl, hv⟩ := List.map_eq_singleton_iff.1 hus
    rcases t with ⟨_, p⟩
    rcases u with ⟨_, q⟩
    rcases v with ⟨_, r'⟩
    cases ht
    cases hu
    cases hv
    refine ⟨_, .comparison (.columnFirst first others op value p q r'), ?_⟩
    simp [Expr.forms, Reference.form_ofPath hr hsegments p]

/-- The sign of a negation in front of a term. -/
lemma negation (h : Reads .term d cs [f]) : Reads .term (d + 1) ('~' :: cs) [.not f] := by
  rcases h.exists_single with ⟨ts, hlexes, hderives⟩
  refine ⟨.not :: ts, fun rest hrest => ?_, fun placed hplaced => ?_⟩
  · have hsign : Lexes (['~'] ++ (cs ++ rest)) [.not] (cs ++ rest) := Lexes.lexeme rfl (by simp)
    exact hsign.append (hlexes rest hrest)
  · obtain ⟨t, placed, rfl, ht, hrest⟩ := List.map_eq_cons_iff.1 hplaced
    rcases t with ⟨_, p⟩
    cases ht
    obtain ⟨e, hd, he⟩ := hderives placed hrest
    exact ⟨[.not e], .negation p hd, by simp [Expr.forms, ← he]⟩

/-- Parentheses around an expression. -/
lemma parentheses (h : Reads (.chain .or) d cs [f]) :
    Reads .term (d + 1) ('(' :: (cs ++ [')'])) [f] := by
  rcases h.exists_single with ⟨ts, hlexes, hderives⟩
  refine ⟨.leftParen :: (ts ++ [.rightParen]), fun rest hrest => ?_, fun placed hplaced => ?_⟩
  · have hopen : Lexes (['('] ++ (cs ++ ')' :: rest)) [.leftParen] (cs ++ ')' :: rest) :=
      Lexes.lexeme rfl (by simp)
    have hclose : Lexes ([')'] ++ rest) [.rightParen] rest := Lexes.lexeme rfl (by simp)
    have h := hopen.append ((hlexes _ (boundary_paren rest)).append hclose)
    simpa using h
  · obtain ⟨t, placed, rfl, ht, hplaced⟩ := List.map_eq_cons_iff.1 hplaced
    obtain ⟨inner, last, rfl, hinner, hlast⟩ := List.map_eq_append_iff.1 hplaced
    obtain ⟨u, rfl, hu⟩ := List.map_eq_singleton_iff.1 hlast
    rcases t with ⟨_, p⟩
    rcases u with ⟨_, q⟩
    cases ht
    cases hu
    obtain ⟨e, hd, he⟩ := hderives inner hinner
    exact ⟨[e], .parentheses p q hd, by simp [he]⟩

/-- Nothing, as the further terms of a chain. -/
lemma noMore (c : Connective) : Reads (.more c) 0 [] [] := by
  refine ⟨[], fun rest _ => .done rest, fun placed hplaced => ?_⟩
  rw [List.map_eq_nil_iff.1 hplaced]
  exact ⟨[], .noMore c, rfl⟩

/-- A phrase that stands for one filter has a token. -/
lemma exists_cons {ts : List Token} (hk : ∀ c, k ≠ .more c)
    (h : ∀ placed : List PlacedToken, placed.map PlacedToken.token = ts →
      ∃ e, Derives k d placed [e] ∧ e.forms = f) : ∃ t us, ts = t :: us := by
  obtain ⟨e, hd, -⟩ := h (ts.map fun t => ⟨t, 0⟩) (by rw [List.map_map]; exact List.map_id ts)
  obtain ⟨t, us, hts, -, -⟩ := Parser.exists_first_token hd hk
  cases ts with
  | nil => cases hts
  | cons t us => exact ⟨t, us, rfl⟩

/-- How a connective stands between two terms. -/
def separator : Connective → String
  | .and => " & "
  | .or => " | "

lemma lexes_separator (c : Connective) {cs rest : List Char} {t : Token} {ts : List Token}
    (h : Lexes cs (t :: ts) rest) :
    Lexes ((separator c).toList ++ cs) (c.token :: t :: ts) rest := by
  have hblank := h.blank (show isBlank ' ' = true by decide)
  cases c with
  | and =>
    have hand : Lexes (['&'] ++ ' ' :: cs) [.and] (' ' :: cs) := Lexes.lexeme rfl (by simp)
    exact (hand.append hblank).blank (by decide)
  | or =>
    have hor : Lexes (['|'] ++ ' ' :: cs) [.or] (' ' :: cs) := Lexes.lexeme rfl (by simp)
    exact (hor.append hblank).blank (by decide)

/-- One more term of a chain. -/
lemma more (h : Reads c.operand d cs [f]) (h' : Reads (.more c) d' cs' fs)
    (hcs' : Boundary cs') :
    Reads (.more c) (max d d') ((separator c).toList ++ (cs ++ cs')) (f :: fs) := by
  obtain ⟨ts, hlexes, hderives⟩ := h.exists_single
  rcases h' with ⟨ts', hlexes', hderives'⟩
  refine ⟨c.token :: (ts ++ ts'), fun rest hrest => ?_, fun placed hplaced => ?_⟩
  · obtain ⟨t, us, rfl⟩ := exists_cons (by cases c <;> simp [Connective.operand]) hderives
    have hboundary : Boundary (cs' ++ rest) := by
      cases cs' with
      | nil => exact hrest
      | cons x xs => exact hcs'
    have hterms := (hlexes _ hboundary).append (hlexes' rest hrest)
    have h := lexes_separator c hterms
    simpa using h
  · obtain ⟨t, placed, rfl, ht, hplaced⟩ := List.map_eq_cons_iff.1 hplaced
    obtain ⟨one, others, rfl, hone, hothers⟩ := List.map_eq_append_iff.1 hplaced
    rcases t with ⟨_, p⟩
    cases ht
    obtain ⟨e, hd, he⟩ := hderives one hone
    obtain ⟨es, hd', hes⟩ := hderives' others hothers
    exact ⟨e :: es, .more p hd hd', by simp [he, hes]⟩

/-- A chain of several terms. -/
lemma several (h : Reads c.operand d cs [f]) (h' : Reads (.more c) d' cs' fs)
    (hcs' : Boundary cs') (hne : fs ≠ []) :
    Reads (.chain c) (max d d') (cs ++ cs') [c.node (f :: fs)] := by
  rcases h.exists_single with ⟨ts, hlexes, hderives⟩
  rcases h' with ⟨ts', hlexes', hderives'⟩
  refine ⟨ts ++ ts', fun rest hrest => ?_, fun placed hplaced => ?_⟩
  · have hboundary : Boundary (cs' ++ rest) := by
      cases cs' with
      | nil => exact hrest
      | cons x xs => exact hcs'
    rw [List.append_assoc]
    exact (hlexes _ hboundary).append (hlexes' rest hrest)
  · obtain ⟨one, others, rfl, hone, hothers⟩ := List.map_eq_append_iff.1 hplaced
    obtain ⟨e, hd, he⟩ := hderives one hone
    obtain ⟨es, hd', hes⟩ := hderives' others hothers
    subst he
    subst hes
    cases es with
    | nil => exact absurd rfl hne
    | cons second es =>
      refine ⟨_, .several hd hd', ?_⟩
      cases c <;> simp [Connective.node, Expr.forms]

/-- A chain of one term. -/
lemma single (h : Reads c.operand d cs [f]) : Reads (.chain c) d cs [f] := by
  rcases h.exists_single with ⟨ts, hlexes, hderives⟩
  refine ⟨ts, hlexes, fun placed hplaced => ?_⟩
  obtain ⟨e, hd, he⟩ := hderives placed hplaced
  exact ⟨[e], .single hd, by simp [he]⟩

lemma operand (h : Reads .term d cs [f]) (c : Connective) : Reads c.operand d cs [f] := by
  cases c with
  | and => exact h
  | or => exact single (c := .and) h

/-- A term is an expression. -/
lemma expression (h : Reads .term d cs [f]) : Reads (.chain .or) d cs [f] :=
  single (h.operand .or)

/-- The further terms of a chain. -/
lemma moreTerms (c : Connective) {terms : List (Expr Reference)}
    (h : ∀ term ∈ terms, Reads .term term.nesting (term.chars Reference.text) [term.reread]) :
    Boundary (Expr.moreChars Reference.text (separator c) terms) ∧
      Reads (.more c) (Expr.chainNesting terms)
        (Expr.moreChars Reference.text (separator c) terms) (terms.map Expr.reread) := by
  induction terms with
  | nil => exact ⟨boundary_nil, noMore c⟩
  | cons term rest ih =>
    obtain ⟨hboundary, hrest⟩ := ih fun t ht => h t (List.mem_cons_of_mem term ht)
    exact ⟨by cases c <;> exact boundary_blank _,
      ((h term (by simp)).operand c).more hrest hboundary⟩

/-- A chain of two terms at least. -/
lemma terms (c : Connective) {terms : List (Expr Reference)} (hlen : 2 ≤ terms.length)
    (h : ∀ term ∈ terms, Reads .term term.nesting (term.chars Reference.text) [term.reread]) :
    Reads (.chain .or) (Expr.chainNesting terms)
      (Expr.chainChars Reference.text (separator c) terms) [c.node (terms.map Expr.reread)] := by
  match terms with
  | [] | [_] => simp at hlen
  | first :: second :: others =>
    obtain ⟨hboundary, hmore⟩ := moreTerms c fun t ht => h t (List.mem_cons_of_mem first ht)
    have hchain := ((h first (by simp)).operand c).several hmore hboundary (by simp)
    cases c with
    | and => exact hchain.single (c := .or)
    | or => exact hchain

end Reads

/-- **The text of a filter is read** with the nesting of the filter, and as the same filter but for
the references, which are read from their segments. -/
theorem reads_chars {e : Expr Reference} (h : e.WellFormed) :
    Reads .term e.nesting (e.chars Reference.text) [e.reread] := by
  induction h with
  | compare hr hvalue =>
    rw [Expr.reread, Expr.mapColumns_compare]
    exact Reads.comparison hr hvalue
  | and hlen _ ih =>
    rw [Expr.reread_and]
    exact (Reads.terms .and hlen ih).parentheses
  | or hlen _ ih =>
    rw [Expr.reread_or]
    exact (Reads.terms .or hlen ih).parentheses
  | not _ ih =>
    rw [Expr.reread, Expr.mapColumns_not]
    exact ih.expression.parentheses.negation

end LinkedTables
