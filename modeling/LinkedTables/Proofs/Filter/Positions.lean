import Mathlib
import LinkedTables.Proofs.Filter.Acceptance
import LinkedTables.Proofs.Filter.Rendering
import LinkedTables.Proofs.Filter.Spans
import LinkedTables.Proofs.Traced

/-!
# Positions

Faults and references carry the number of characters in front of them.  This module says that these
numbers point into the text that was parsed, and at what.

**Faults.**  A scan gives up within the text (`Token.FaultsWithin`).  A parser gives up at a token:
it names the place of a token that it was given, which need not be the one that it has reached
(`Outcome.Keeps`).

**References.**  The references of a filter are the column tokens it was parsed from, in the same
order (`Derives.columns_eq`), whichever side of a comparison they stand on.  The span of such a
token is a dotted path that is `MaximalAt` its place: the lexical grammar says that it goes no
further, and that no other word ends right in front of it.

`positions_of_parseFilter` puts the two together.
-/

namespace LinkedTables

open Text Outcome

/-! ## Where a scan gives up -/

namespace Token

/-- If the scan finds a fault, it is `n` characters further on at most. -/
def FaultsWithin (n : ℕ) (s : Scan) : Prop :=
  ∀ offset fault, s.outcome = .error (offset, fault) → offset ≤ n

lemma faultsWithin_scanNumber (negative : Bool) (cs : List Char) (n : ℕ) :
    FaultsWithin n (scanNumber negative cs) := by
  intro offset fault h
  unfold scanNumber at h
  dsimp only at h
  split_ifs at h
  · cases h
    exact Nat.zero_le n
  · split at h <;> cases h
    exact Nat.zero_le n

lemma faultsWithin_scanQuoted (quote : Char) (cs : List Char) (n : ℕ) :
    FaultsWithin n (scanQuoted quote cs) := by
  intro offset fault h
  unfold scanQuoted at h
  dsimp only at h
  split_ifs at h
  cases h
  exact Nat.zero_le n

/-- A path is at fault right behind a point. -/
lemma faultsWithin_scanPath (segments : List String) (current : List Char) (used : ℕ)
    (cs : List Char) : FaultsWithin (used + cs.length) (scanPath segments current used cs) := by
  intro offset fault h
  fun_induction scanPath segments current used cs with
  | case1 | case6 => cases h
  | case2 segments current used c rest _ ih =>
    have hoffset := ih h
    simp only [List.length_cons]
    omega
  | case3 segments current used =>
    cases h
    simp
  | case4 segments current used d rest _ _ ih =>
    have hoffset := ih h
    simp only [List.length_cons]
    omega
  | case5 segments current used d rest =>
    cases h
    simp only [List.length_cons]
    omega

lemma faultsWithin_scanWord (c : Char) (rest : List Char) :
    FaultsWithin (rest.length + 1) (scanWord c rest) := by
  unfold scanWord
  split_ifs
  · exact faultsWithin_scanNumber _ _ _
  · exact faultsWithin_scanNumber _ _ _
  · rw [Nat.add_comm]
    exact faultsWithin_scanPath _ _ _ _
  · rintro offset fault ⟨⟩
    exact Nat.zero_le _

lemma faultsWithin_scanConnective (c : Char) (token : Token) (rest : List Char) (n : ℕ) :
    FaultsWithin n (scanConnective c token rest) := by
  intro offset fault h
  unfold scanConnective at h
  split_ifs at h
  cases h
  exact Nat.zero_le n

lemma faultsWithin_scanComparator {op : Comparator} {alone : Except (ℕ × SyntaxFault) Token}
    (halone : ∀ offset fault, alone = .error (offset, fault) → offset = 0) (rest : List Char)
    (n : ℕ) : FaultsWithin n (scanComparator op alone rest) := by
  intro offset fault h
  unfold scanComparator at h
  split_ifs at h
  rw [halone offset fault h]
  exact Nat.zero_le n

/-- **A scan gives up within the text.** -/
theorem faultsWithin_scan (cs : List Char) : FaultsWithin cs.length (scan cs) := by
  cases cs with
  | nil =>
    rintro offset fault ⟨⟩
  | cons c rest =>
    simp only [scan]
    split
    case h_4 | h_5 => exact faultsWithin_scanConnective _ _ _ _
    case h_6 | h_7 => exact faultsWithin_scanComparator (by rintro _ _ ⟨⟩; rfl) _ _
    case h_8 | h_9 => exact faultsWithin_scanComparator (by rintro _ _ ⟨⟩) _ _
    case h_10 | h_11 => exact faultsWithin_scanQuoted _ _ _
    case h_12 => exact faultsWithin_scanWord c rest
    -- parentheses and the negation sign
    all_goals rintro offset fault ⟨⟩

end Token

lemma Cursor.position_le_of_next {c : Cursor} {x : SyntaxError} (h : c.next.1 = .error x) :
    x.position ≤ c.position + c.rest.length := by
  have hsplit := congrArg List.length
    (List.takeWhile_append_dropWhile (p := isBlank) (l := c.rest))
  rw [List.length_append, ← Cursor.rest_skipBlanks] at hsplit
  rw [next] at h
  dsimp only at h
  split at h
  · cases h
  · rename_i offset fault hscan
    cases h
    have hoffset := Token.faultsWithin_scan _ offset fault hscan
    have hposition : c.skipBlanks.position
        = c.position + (c.rest.takeWhile isBlank).length := rfl
    dsimp only
    omega

lemma position_le_of_tokensFrom {found : List PlacedToken} {c : Cursor} {x : SyntaxError}
    (h : tokensFrom found c = .error x) : x.position ≤ c.position + c.rest.length := by
  fun_induction tokensFrom found c with
  | case1 found c e hnext =>
    cases h
    exact Cursor.position_le_of_next hnext
  | case2 => cases h
  | case3 found c t hnext hend _ ih =>
    refine (ih h).trans_eq ?_
    rcases Cursor.exists_of_next hnext with
      ⟨hend', -⟩ | ⟨blanks, lexeme, rest, goesOn, hblanks, hcs, hlexeme, hrest⟩
    · exact absurd hend' hend
    · obtain ⟨p, cs⟩ := c
      subst hcs
      rw [Cursor.next_of_lexeme hblanks hlexeme hrest]
      simp only [List.length_append]
      omega

/-! ## Where a parser gives up -/

namespace TokenStream

lemma current_mem (s : TokenStream) : s.current ∈ s.toList := List.mem_cons_self ..

lemma advance_subset (s : TokenStream) : s.advance.toList ⊆ s.toList := by
  rcases s with ⟨current, _ | ⟨t, rest⟩⟩
  · exact List.Subset.refl _
  · exact List.subset_cons_self ..

end TokenStream

/-- What is left behind are tokens of the list, and a parse that stops names the place of one. -/
def Outcome.Keeps {α : Type} (ts : List PlacedToken) : Outcome α → Prop
  | parsed _ behind => behind.toList ⊆ ts
  | stopped halt => ∃ t ∈ ts, t.position = halt.error.position

namespace Outcome.Keeps

variable {α β : Type} {ts us : List PlacedToken} {o : Outcome α}

lemma mono (h : o.Keeps ts) (hsub : ts ⊆ us) : o.Keeps us := by
  cases o with
  | parsed a behind => exact List.Subset.trans h hsub
  | stopped halt =>
    obtain ⟨t, ht, hposition⟩ := h
    exact ⟨t, hsub ht, hposition⟩

lemma subset (h : o.Keeps ts) {a : α} {behind : TokenStream} (ho : o = parsed a behind) :
    behind.toList ⊆ ts := by
  subst ho
  exact h

/-- What goes on behind what was parsed may refer to all tokens given. -/
lemma andThen (h : o.Keeps ts) {next : α → TokenStream → Outcome β}
    (hnext : ∀ a behind, o = parsed a behind → (next a behind).Keeps ts) :
    (o.andThen next).Keeps ts := by
  cases o with
  | parsed a behind => exact hnext a behind rfl
  | stopped halt => exact h

lemma within (h : o.Keeps ts) : o.within.Keeps ts := by
  cases o with
  | parsed a behind => exact h
  | stopped halt => exact h

end Outcome.Keeps

namespace Parser

/-- The parser leaves tokens that it was given, and gives up at one of them. -/
def Grounded {α : Type} (parser : TokenStream → Outcome α) : Prop :=
  ∀ s, (parser s).Keeps s.toList

lemma Grounded.of_subset {α : Type} {parser : TokenStream → Outcome α} (h : Grounded parser)
    {s : TokenStream} {ts : List PlacedToken} (hs : s.toList ⊆ ts) : (parser s).Keeps ts :=
  (h s).mono hs

lemma keeps_refuse {α : Type} (s : TokenStream) (fault : SyntaxFault) :
    (refuse s fault : Outcome α).Keeps s.toList :=
  ⟨s.current, s.current_mem, rfl⟩

/-- The place of an operand. -/
def Operand.position : Operand → ℕ
  | column r => r.position
  | literal _ position => position

lemma position_ofPath (first : String) (rest : List String) (p : ℕ) :
    (Reference.ofPath first rest p).position = p := by
  unfold Reference.ofPath
  split
  · rfl
  · split_ifs
    · split <;> rfl
    · rfl

lemma grounded_operand (missing : Token → SyntaxFault) : Grounded (operand missing) := by
  intro s
  unfold operand
  split
  · exact s.advance_subset
  · exact s.advance_subset
  · exact keeps_refuse ..

/-- An operand stands at the token it was parsed from. -/
lemma exists_of_operand {missing : Token → SyntaxFault} {s s' : TokenStream} {o : Operand}
    (h : operand missing s = parsed o s') : ∃ t ∈ s.toList, t.position = o.position := by
  refine ⟨s.current, s.current_mem, ?_⟩
  unfold operand at h
  split at h <;> cases h
  · exact (position_ofPath ..).symm
  · rfl

/-- Two operands that make no comparison are refused at the place of one of them. -/
lemma keeps_compareOperands {op : Comparator} {behind : TokenStream} {ts : List PlacedToken}
    {left right : Operand} (hbehind : behind.toList ⊆ ts)
    (hleft : ∃ t ∈ ts, t.position = left.position)
    (hright : ∃ t ∈ ts, t.position = right.position) :
    (compareOperands op behind left right).Keeps ts := by
  cases left <;> cases right
  · exact hright
  · exact hbehind
  · exact hbehind
  · exact hleft

lemma grounded_comparison : Grounded comparison := by
  intro s
  have hleft := grounded_operand .operandExpected s
  refine hleft.andThen fun left s₁ hparsed => ?_
  have hs₁ := hleft.subset hparsed
  split
  · rename_i op _
    have hadvance := List.Subset.trans s₁.advance_subset hs₁
    have hright := (grounded_operand (.valueExpected op)).of_subset hadvance
    refine hright.andThen fun right s₂ hparsed' => ?_
    obtain ⟨t, ht, hposition⟩ := exists_of_operand hparsed'
    exact keeps_compareOperands (hright.subset hparsed') (exists_of_operand hparsed)
      ⟨t, hadvance ht, hposition⟩
  · exact (keeps_refuse ..).mono hs₁

variable {separator : Token} {node : List (Expr Reference) → Expr Reference}
  {parser : TokenStream → Outcome (Expr Reference)}

lemma grounded_moreTerms (hp : Grounded parser) (ahead : List PlacedToken) :
    ∀ done, Grounded (moreTerms separator parser ahead done) := by
  induction ahead with
  | nil => exact fun done s => List.Subset.refl _
  | cons t ahead ih =>
    intro done s
    simp only [moreTerms]
    split_ifs
    · have hkeeps := hp.of_subset s.advance_subset
      cases hterm : parser s.advance with
      | stopped halt =>
        rw [hterm] at hkeeps
        exact hkeeps
      | parsed e behind =>
        rw [hterm] at hkeeps
        exact (ih _).of_subset hkeeps
    · exact List.Subset.refl _

lemma grounded_chain (hp : Grounded parser) : Grounded (chain separator node parser) := by
  intro s
  have hfirst := hp s
  refine hfirst.andThen fun first s₁ hparsed => ?_
  have hmore : (moreTerms separator parser s₁.toList [first] s₁).Keeps s.toList :=
    (grounded_moreTerms hp _ _).of_subset (hfirst.subset hparsed)
  refine hmore.andThen fun terms s₂ hterms => ?_
  exact hmore.subset hterms

lemma grounded_expression (hp : Grounded parser) : Grounded (expression parser) :=
  grounded_chain (grounded_chain hp)

lemma grounded_parenthesized (hp : Grounded parser) : Grounded (parenthesized parser) := by
  intro s
  unfold parenthesized
  dsimp only
  split_ifs
  · exact (keeps_refuse ..).mono s.advance_subset
  · have hinner := (grounded_expression hp).of_subset s.advance_subset
    refine hinner.andThen fun e behind hparsed => ?_
    split_ifs
    · exact List.Subset.trans behind.advance_subset (hinner.subset hparsed)
    · exact ⟨s.current, s.current_mem, rfl⟩

lemma grounded_term (n : ℕ) : Grounded (term n) := by
  induction n with
  | zero =>
    intro s
    unfold term
    split
    · exact (keeps_refuse ..).within
    · exact (keeps_refuse ..).within
    · exact grounded_comparison s
  | succ n ih =>
    intro s
    unfold term
    split
    · have hterm := ih.of_subset s.advance_subset
      refine (hterm.andThen fun e behind hparsed => ?_).within
      exact hterm.subset hparsed
    · exact (grounded_parenthesized ih s).within
    · exact grounded_comparison s

/-- **A parser gives up at a token.** -/
theorem exists_token_of_parse {p : Parser} {x : SyntaxError} (h : p.parse.1 = .error x) :
    ∃ t ∈ p.stream.toList, t.position = x.position := by
  have hkeeps := grounded_expression (grounded_term (maxNesting - p.depth)) p.stream
  simp only [parse] at h
  split at h
  · cases h
    exact ⟨p.stream.current, p.stream.current_mem, rfl⟩
  · split at h
    · rename_i halt hstopped
      cases h
      rw [hstopped] at hkeeps
      exact hkeeps
    · rename_i e behind hparsed
      have hcurrent := hkeeps.subset hparsed behind.current_mem
      dsimp only at h
      split at h <;> cases h
      all_goals exact ⟨behind.current, hcurrent, rfl⟩

end Parser

/-! ## Which tokens the references are -/

/-- The reference that a token is, if it is a column. -/
def PlacedToken.reference? (t : PlacedToken) : Option Reference :=
  match t.token with
  | .column first rest => some (.ofPath first rest t.position)
  | _ => none

lemma columns_node (c : Connective) (terms : List (Expr Reference)) :
    (c.node terms).columns = terms.flatMap Expr.columns := by
  cases c <;> simp [Connective.node]

lemma filterMap_reference?_of_isComparison {ts : List PlacedToken} {e : Expr Reference}
    (h : IsComparison ts e) : ts.filterMap PlacedToken.reference? = e.columns := by
  cases h <;> rfl

/-- **The references of a filter are its column tokens** in the order of the text. -/
theorem Derives.columns_eq {k : Phrase} {d : ℕ} {ts : List PlacedToken}
    {es : List (Expr Reference)} (h : Derives k d ts es) :
    ts.filterMap PlacedToken.reference? = es.flatMap Expr.columns := by
  have hconnective : ∀ (c : Connective) p, PlacedToken.reference? ⟨c.token, p⟩ = none := by
    intro c p
    cases c <;> rfl
  induction h with
  | comparison hc => simpa using filterMap_reference?_of_isComparison hc
  | negation p _ ih =>
    have hnot : PlacedToken.reference? ⟨.not, p⟩ = none := rfl
    simpa [List.filterMap_cons, hnot] using ih
  | parentheses p q _ ih =>
    have hleft : PlacedToken.reference? ⟨.leftParen, p⟩ = none := rfl
    have hright : PlacedToken.reference? ⟨.rightParen, q⟩ = none := rfl
    simpa [List.filterMap_cons, hleft, hright] using ih
  | noMore => rfl
  | more p _ _ ih ih' =>
    rw [List.filterMap_cons_none (hconnective _ p), List.filterMap_append, ih, ih']
    simp
  | single _ ih => exact ih
  | several _ _ ih ih' =>
    rw [List.filterMap_append, ih, ih']
    simp [columns_node]

/-! ## What stands at the place of a reference -/

/-- The segments as which a reference is written: its path and its name, and `self` in front of them
where the reference does not keep it. -/
inductive Reference.Form.WrittenAs : Reference.Form → List String → Prop
  | plain (name : String) : WrittenAs (.plain name) [name]
  | home (name : String) : WrittenAs (.home name) ["self", name]
  | path {segments : List String} (name : String) : segments ≠ [] → segments.head? ≠ some "self" →
      WrittenAs (.path segments name) (segments ++ [name])
  | pathOfSelf {segments : List String} (name : String) : segments ≠ [] →
      WrittenAs (.path segments name) ("self" :: (segments ++ [name]))

lemma writtenAs_ofPath (first : String) (rest : List String) (p : ℕ) :
    (Reference.ofPath first rest p).form.WrittenAs (first :: rest) := by
  cases rest with
  | nil => exact .plain first
  | cons second more =>
    have hlast : (second :: more).dropLast ++ [more.getLastD second] = second :: more := by
      rw [← List.getLast_eq_getLastD]
      exact List.dropLast_append_getLast (List.cons_ne_nil second more)
    rw [Reference.form_ofPath_cons]
    split_ifs with hself hmore
    · subst hself hmore
      exact .home second
    · subst hself
      have hne : (second :: more).dropLast ≠ [] := by simp [List.dropLast_cons_of_ne_nil hmore]
      have hpath := Reference.Form.WrittenAs.pathOfSelf (more.getLastD second) hne
      rwa [hlast] at hpath
    · rw [List.dropLast_cons_of_ne_nil (List.cons_ne_nil second more)]
      have hpath : Reference.Form.WrittenAs
          (.path (first :: (second :: more).dropLast) (more.getLastD second))
          (first :: (second :: more).dropLast ++ [more.getLastD second]) :=
        .path _ (by simp) (by simpa using hself)
      rwa [List.cons_append, hlast] at hpath

/-- The text has the dotted path `segments` behind `p` characters, and the path goes no further in
either direction. -/
def MaximalAt (text : List Char) (p : ℕ) (segments : List String) : Prop :=
  ∃ before after, text = before ++ ((".".intercalate segments).toList ++ after)
    ∧ before.length = p ∧ segments ≠ [] ∧ (∀ s ∈ segments, IsName s)
    ∧ (∀ c ∈ before.getLast?, Token.goesOnWord c = false)
    ∧ ∀ c ∈ after.head?, Token.goesOnWord c = false

lemma Token.eq_of_ofPath_eq_column {first first' : String} {rest rest' : List String}
    (h : ofPath first rest = .column first' rest') : first = first' ∧ rest = rest' := by
  cases rest with
  | nil =>
    rw [ofPath] at h
    cases hkeyword : keyword? first with
    | none =>
      rw [hkeyword] at h
      cases h
      exact ⟨rfl, rfl⟩
    | some value =>
      rw [hkeyword] at h
      cases h
  | cons second rest =>
    cases h
    exact ⟨rfl, rfl⟩

/-- A column is written as its path, and goes on as a word does. -/
lemma Token.Lexeme.of_column {cs : List Char} {first : String} {rest : List String}
    {goesOn : Char → Bool} (h : Lexeme cs (.column first rest) goesOn) :
    cs = (".".intercalate (first :: rest)).toList ∧ goesOn = goesOnWord
      ∧ ∀ s ∈ first :: rest, IsName s := by
  generalize ht : Token.column first rest = t at h
  cases h with
  | @sign s hs =>
    have key : (signs.all fun s => match s.token with
        | .column _ _ => false
        | _ => true) = true := by
      decide
    have hnot := List.all_eq_true.1 key s hs
    rw [← ht] at hnot
    cases hnot
  | quoted | number => cases ht
  | path hnames =>
    obtain ⟨rfl, rfl⟩ := eq_of_ofPath_eq_column ht.symm
    exact ⟨(toList_intercalate_dot ..).symm, rfl, hnames⟩

/-- The span of a column is a maximal path. -/
lemma Splits.maximalAt {text : List Char} {spans : List Span} (h : Splits 0 text spans) {x : Span}
    (hx : x ∈ spans) {first : String} {rest : List String} (ht : x.token = .column first rest) :
    MaximalAt text x.start (first :: rest) := by
  obtain ⟨before, lexeme, after, goesOn, rfl, hstart, -, hlexeme, hafter, hbefore⟩ :=
    h.exists_lexeme hx
  rw [ht] at hlexeme
  obtain ⟨rfl, rfl, hnames⟩ := hlexeme.of_column
  refine ⟨before, after, rfl, by omega, by simp, hnames, fun c hc => ?_, hafter⟩
  -- the path begins with a letter, which would go on with a word before it
  refine (hbefore c hc).resolve_right fun hhead => ?_
  obtain ⟨d, tail, hfirst, hd, -⟩ := hnames first (List.mem_cons_self ..)
  have hword := hhead d (by
    rw [Token.toList_intercalate_dot, Token.pathChars, hfirst]
    rfl)
  simp [Token.goesOnWord, isNameChar_of_isNameStart hd] at hword

/-! ## Whole texts -/

lemma Splits.position_le {text : List Char} {spans : List Span} (h : Splits 0 text spans)
    {t : PlacedToken}
    (ht : t ∈ spans.map Span.placed ++ [(⟨.endOfInput, text.length⟩ : PlacedToken)]) :
    t.position ≤ text.length := by
  rcases List.mem_append.1 ht with ht | ht
  · obtain ⟨x, hx, rfl⟩ := List.mem_map.1 ht
    obtain ⟨-, hlt, hle⟩ := h.bounds x hx
    simp only [Span.placed]
    omega
  · rw [List.mem_singleton.1 ht]

/-- The references of an accepted text are the columns of its split. -/
lemma exists_splits_of_parseFilter {text : String} {e : Expr Reference}
    (h : parseFilter text = .ok e) : ∃ spans, Splits 0 text.toList spans
      ∧ e.columns = (spans.map Span.placed).filterMap PlacedToken.reference? := by
  rw [parseFilter_eq_bind] at h
  obtain ⟨s, htokens, hparse⟩ := eq_ok_of_bind h
  obtain ⟨spans, hsplit, rfl⟩ := tokenize_eq_ok_iff.1 htokens
  have hend : ∀ t ∈ spans.map Span.placed, t.token ≠ .endOfInput := by
    intro t ht
    obtain ⟨x, hx, rfl⟩ := List.mem_map.1 ht
    exact hsplit.ne_endOfInput hx
  obtain ⟨d, -, hderives⟩ := Parser.derives_of_parse hend hparse
  refine ⟨spans, hsplit, ?_⟩
  rw [hderives.columns_eq, List.flatMap_singleton]

lemma exists_column_of_reference? {t : PlacedToken} {r : Reference} (h : t.reference? = some r) :
    ∃ first rest, t.token = .column first rest ∧ r = .ofPath first rest t.position := by
  unfold PlacedToken.reference? at h
  split at h
  · rename_i first rest htoken
    cases h
    exact ⟨first, rest, htoken, rfl⟩
  · cases h

lemma position_of_reference? {t : PlacedToken} {r : Reference} (h : t.reference? = some r) :
    r.position = t.position := by
  obtain ⟨first, rest, -, rfl⟩ := exists_column_of_reference? h
  exact Parser.position_ofPath ..

lemma Splits.pairwise_position {text : List Char} {spans : List Span} (h : Splits 0 text spans) :
    (((spans.map Span.placed).filterMap PlacedToken.reference?).map Reference.position).Pairwise
      (· < ·) := by
  have hstarts : spans.Pairwise fun x y => x.start < y.start := by
    refine h.pairwise.imp_of_mem fun hx _ hle => ?_
    exact (h.bounds _ hx).2.1.trans_le hle
  rw [List.pairwise_map, List.pairwise_filterMap, List.pairwise_map]
  refine hstarts.imp fun hlt r hr r' hr' => ?_
  rw [position_of_reference? hr, position_of_reference? hr']
  exact hlt

/-- **Positions point into the text.**  A text that is refused is at fault at one of its characters
or at its end.  The references of an accepted text stand one behind the other, and the place of each
is that of the path as which it is written. -/
theorem positions_of_parseFilter (text : String) :
    (∀ x, parseFilter text = .error x → x.position ≤ text.length)
    ∧ ∀ e, parseFilter text = .ok e →
      (e.columns.map Reference.position).Pairwise (· < ·)
      ∧ ∀ r ∈ e.columns, ∃ segments, r.form.WrittenAs segments
        ∧ MaximalAt text.toList r.position segments := by
  refine ⟨fun x h => ?_, fun e h => ?_⟩
  · rw [parseFilter_eq_bind] at h
    rw [← String.length_toList]
    rcases eq_error_of_bind h with htokens | ⟨s, htokens, hparse⟩
    · simpa [Cursor.start] using position_le_of_tokensFrom htokens
    · obtain ⟨spans, hsplit, rfl⟩ := tokenize_eq_ok_iff.1 htokens
      obtain ⟨t, ht, hposition⟩ := Parser.exists_token_of_parse hparse
      rw [TokenStream.toList_of_spans] at ht
      exact hposition ▸ hsplit.position_le ht
  · obtain ⟨spans, hsplit, hcolumns⟩ := exists_splits_of_parseFilter h
    rw [hcolumns]
    refine ⟨hsplit.pairwise_position, fun r hr => ?_⟩
    obtain ⟨t, ht, hreference⟩ := List.mem_filterMap.1 hr
    obtain ⟨x, hx, rfl⟩ := List.mem_map.1 ht
    obtain ⟨first, rest, htoken, rfl⟩ := exists_column_of_reference? hreference
    refine ⟨first :: rest, writtenAs_ofPath .., ?_⟩
    rw [Parser.position_ofPath]
    exact hsplit.maximalAt hx htoken

/-- A name is missing at the very end of the first text, and in the second text the columns stand on
either side of the comparisons. -/
theorem positions_of_parseFilter_ends :
    (parseFilter "a == b." = .error ⟨7, .nameExpected⟩ ∧ 7 ≤ "a == b.".length)
    ∧ (parseFilter "1<self.b.c|d==2" = .ok
        (.or [.compare ⟨.path ["b"] "c", 2⟩ .gt (.integer 1),
          .compare ⟨.plain "d", 11⟩ .eq (.integer 2)])
      ∧ [2, 11].Pairwise (· < ·)
      ∧ ∃ segments, Reference.Form.WrittenAs (.path ["b"] "c") segments
        ∧ MaximalAt "1<self.b.c|d==2".toList 2 segments) := by
  obtain ⟨herror, hok⟩ : parseFilter "a == b." = .error ⟨7, .nameExpected⟩
      ∧ parseFilter "1<self.b.c|d==2" = .ok
        (.or [.compare ⟨.path ["b"] "c", 2⟩ .gt (.integer 1),
          .compare ⟨.plain "d", 11⟩ .eq (.integer 2)]) := by
    constructor <;> cbv
  have hposition := (positions_of_parseFilter "a == b.").1 _ herror
  obtain ⟨hordered, hwritten⟩ := (positions_of_parseFilter _).2 _ hok
  exact ⟨⟨herror, hposition⟩, hok, hordered,
    hwritten ⟨.path ["b"] "c", 2⟩ (List.mem_cons_self ..)⟩

end LinkedTables
