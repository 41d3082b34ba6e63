import Mathlib
import LinkedTables.Proofs.Filter.LexicalGrammar

/-!
# Where the tokens of a text stand

A `Span` is a token together with the stretch of the text that it takes.  `Splits p cs spans` says
that the text `cs`, which stands behind `p` characters, is made of the lexemes of `spans` with
blanks in front of them, between them and behind them.  Unlike `Lexes` it knows the positions, and
unlike the lexer it makes no choice: `tokenize_eq_ok_iff` says that the tokens of a text are exactly
those of a split, and the end of the input behind them.

What a split says does not change with what stands elsewhere: it can be moved (`Splits.shift`), each
span can be taken out of it (`Splits.exists_lexeme`), and blanks can be put in between two spans
(`Splits.insert`).  The main statement `exists_localSplit_of_tokenize` says all of this of a text
that has tokens.
-/

namespace LinkedTables

open Text

/-- A token of a text, and the characters that it takes: those from `start` on and before `stop`. -/
structure Span where
  token : Token
  start : ℕ
  stop : ℕ
deriving DecidableEq, Repr

namespace Span

/-- The token at its place. -/
def placed (x : Span) : PlacedToken := ⟨x.token, x.start⟩

/-- The characters of a span. -/
def chars (x : Span) (text : List Char) : List Char := (text.drop x.start).take (x.stop - x.start)

/-- The same span behind `n` more characters. -/
def shift (n : ℕ) (x : Span) : Span := ⟨x.token, x.start + n, x.stop + n⟩

/-- The span in a text that gets `n` more characters at the place `p`. -/
def moved (p n : ℕ) (x : Span) : Span := if x.start < p then x else x.shift n

/-- The character behind the first `p` ones belongs to the span. -/
def Covers (x : Span) (p : ℕ) : Prop := x.start ≤ p ∧ p < x.stop

/-- The place behind the first `p` characters lies between two characters of the span. -/
def CutAt (x : Span) (p : ℕ) : Prop := x.start < p ∧ p < x.stop

end Span

/-- The token in a text that gets `n` more characters at the place `p`. -/
def PlacedToken.moved (p n : ℕ) (t : PlacedToken) : PlacedToken :=
  if t.position < p then t else ⟨t.token, t.position + n⟩

@[simp] lemma PlacedToken.token_moved (p n : ℕ) (t : PlacedToken) :
    (t.moved p n).token = t.token := by
  unfold moved
  split_ifs <;> rfl

lemma Span.moved_of_lt {x : Span} {p n : ℕ} (h : x.start < p) : x.moved p n = x := if_pos h

lemma Span.moved_of_le {x : Span} {p n : ℕ} (h : p ≤ x.start) : x.moved p n = x.shift n :=
  if_neg (Nat.not_lt.2 h)

lemma Span.placed_moved (p n : ℕ) (x : Span) : (x.moved p n).placed = x.placed.moved p n := by
  by_cases h : x.start < p <;> simp [Span.moved, PlacedToken.moved, Span.placed, Span.shift, h]

/-- `Splits p cs spans`: the text `cs` behind `p` characters is made of the lexemes of `spans` in
order, and of blanks. -/
inductive Splits : ℕ → List Char → List Span → Prop
  | done {p : ℕ} {blanks : List Char} : (∀ c ∈ blanks, isBlank c) → Splits p blanks []
  | token {p : ℕ} {blanks lexeme rest : List Char} {t : Token} {goesOn : Char → Bool}
      {spans : List Span} : (∀ c ∈ blanks, isBlank c) → Token.Lexeme lexeme t goesOn →
      (∀ c ∈ rest.head?, goesOn c = false) →
      Splits (p + blanks.length + lexeme.length) rest spans →
      Splits p (blanks ++ (lexeme ++ rest))
        (⟨t, p + blanks.length, p + blanks.length + lexeme.length⟩ :: spans)

/-! ## The lexer finds the split -/

lemma Cursor.skipBlanks_append {p : ℕ} {blanks rest : List Char} (hblanks : ∀ c ∈ blanks, isBlank c)
    (hrest : ∀ c ∈ rest.head?, isBlank c = false) :
    Cursor.skipBlanks ⟨p, blanks ++ rest⟩ = ⟨p + blanks.length, rest⟩ := by
  have htake : (blanks ++ rest).takeWhile isBlank = blanks := by
    rw [List.takeWhile_append_of_pos hblanks]
    cases rest with
    | nil => simp
    | cons c rest => simp [hrest c (by simp)]
  simp [skipBlanks, advance, htake]

lemma Cursor.next_of_blanks {p : ℕ} {blanks : List Char} (hblanks : ∀ c ∈ blanks, isBlank c) :
    Cursor.next ⟨p, blanks⟩ = (.ok ⟨.endOfInput, p + blanks.length⟩, ⟨p + blanks.length, []⟩) := by
  have hskip : Cursor.skipBlanks ⟨p, blanks ++ []⟩ = ⟨p + blanks.length, []⟩ :=
    Cursor.skipBlanks_append hblanks (by simp)
  rw [List.append_nil] at hskip
  simp [next, hskip, Token.scan_nil, advance]

lemma Cursor.next_of_lexeme {p : ℕ} {blanks lexeme rest : List Char} {t : Token}
    {goesOn : Char → Bool} (hblanks : ∀ c ∈ blanks, isBlank c)
    (hlexeme : Token.Lexeme lexeme t goesOn) (hrest : ∀ c ∈ rest.head?, goesOn c = false) :
    Cursor.next ⟨p, blanks ++ (lexeme ++ rest)⟩
      = (.ok ⟨t, p + blanks.length⟩, ⟨p + blanks.length + lexeme.length, rest⟩) := by
  have hscan := hlexeme.scan_append hrest
  have hhead : ∀ c ∈ (lexeme ++ rest).head?, isBlank c = false := by
    intro c hc
    obtain ⟨tail, htail⟩ := List.head?_eq_some_iff.1 hc
    rw [htail] at hscan
    exact Token.not_isBlank_of_scan hscan
  simp [next, Cursor.skipBlanks_append hblanks hhead, hscan, advance]

/-- What the cursor finds is a lexeme behind blanks, or nothing but blanks is left. -/
lemma Cursor.exists_of_next {c : Cursor} {t : PlacedToken} (h : c.next.1 = .ok t) :
    (t.token = .endOfInput ∧ ∀ b ∈ c.rest, isBlank b)
    ∨ ∃ blanks lexeme rest goesOn, (∀ b ∈ blanks, isBlank b) ∧ c.rest = blanks ++ (lexeme ++ rest)
      ∧ Token.Lexeme lexeme t.token goesOn ∧ ∀ d ∈ rest.head?, goesOn d = false := by
  have hsplit := List.takeWhile_append_dropWhile (p := isBlank) (l := c.rest)
  have hblanks : ∀ b ∈ c.rest.takeWhile isBlank, isBlank b := fun b hb => List.mem_takeWhile_imp hb
  have hscan : ∃ used, Token.scan (c.rest.dropWhile isBlank) = ⟨.ok t.token, used⟩ := by
    rw [next] at h
    dsimp only at h
    rw [Cursor.rest_skipBlanks] at h
    cases hscan : Token.scan (c.rest.dropWhile isBlank) with
    | mk outcome used =>
      rw [hscan] at h
      cases outcome <;> cases h
      exact ⟨used, rfl⟩
  obtain ⟨used, hscan⟩ := hscan
  by_cases hnil : c.rest.dropWhile isBlank = []
  · rw [hnil, List.append_nil] at hsplit
    rw [hnil] at hscan
    cases t
    cases hscan
    exact Or.inl ⟨rfl, hsplit ▸ hblanks⟩
  · obtain ⟨lexeme, rest, goesOn, hcs, -, hlexeme, hrest⟩ := Token.exists_lexeme_of_scan hscan hnil
    rw [hcs] at hsplit
    exact Or.inr ⟨_, lexeme, rest, goesOn, hblanks, hsplit.symm, hlexeme, hrest⟩

/-- The stream of the tokens of a split behind those already found. -/
lemma Splits.tokensFrom_eq {p : ℕ} {cs : List Char} {spans : List Span} (h : Splits p cs spans)
    (found : List PlacedToken) :
    tokensFrom found ⟨p, cs⟩ = .ok (TokenStream.prepend (found.reverse ++ spans.map Span.placed)
      ⟨⟨.endOfInput, p + cs.length⟩, []⟩) := by
  induction h generalizing found with
  | done hblanks =>
    rw [tokensFrom_of_end (by rw [Cursor.next_of_blanks hblanks]) rfl]
    simp
  | @token p blanks lexeme rest t goesOn spans hblanks hlexeme hrest _ ih =>
    have hnext := Cursor.next_of_lexeme (p := p) hblanks hlexeme hrest
    rw [tokensFrom_of_next (by rw [hnext]) hlexeme.ne_endOfInput, hnext, ih]
    simp [Span.placed, Nat.add_assoc]

lemma exists_splits_of_tokensFrom {found : List PlacedToken} {c : Cursor} {s : TokenStream}
    (h : tokensFrom found c = .ok s) : ∃ spans, Splits c.position c.rest spans := by
  fun_induction tokensFrom found c with
  | case1 => cases h
  | case2 found c t hnext hend =>
    rcases Cursor.exists_of_next hnext with ⟨-, hblanks⟩ | ⟨_, _, _, _, -, -, hlexeme, -⟩
    · exact ⟨[], .done hblanks⟩
    · exact absurd hend hlexeme.ne_endOfInput
  | case3 found c t hnext hend _ ih =>
    obtain ⟨spans, hspans⟩ := ih h
    rcases Cursor.exists_of_next hnext with
      ⟨hend', -⟩ | ⟨blanks, lexeme, rest, goesOn, hblanks, hcs, hlexeme, hrest⟩
    · exact absurd hend' hend
    · obtain ⟨p, cs⟩ := c
      subst hcs
      rw [Cursor.next_of_lexeme hblanks hlexeme hrest] at hspans
      exact ⟨_, .token hblanks hlexeme hrest hspans⟩

/-- **The tokens of a text are those of its split**, and the end of the input behind them. -/
theorem tokenize_eq_ok_iff {text : List Char} {s : TokenStream} :
    tokenize text = .ok s ↔ ∃ spans, Splits 0 text spans
      ∧ s = TokenStream.prepend (spans.map Span.placed) ⟨⟨.endOfInput, text.length⟩, []⟩ := by
  have hof : ∀ spans, Splits 0 text spans → tokenize text
      = .ok (TokenStream.prepend (spans.map Span.placed) ⟨⟨.endOfInput, text.length⟩, []⟩) := by
    intro spans hspans
    have htokens := hspans.tokensFrom_eq []
    rwa [Nat.zero_add] at htokens
  constructor
  · intro h
    obtain ⟨spans, hspans⟩ := exists_splits_of_tokensFrom h
    refine ⟨spans, hspans, ?_⟩
    rw [hof spans hspans] at h
    exact (Except.ok.inj h).symm
  · rintro ⟨spans, hspans, rfl⟩
    exact hof spans hspans

/-! ## What a split says -/

namespace Splits

variable {p : ℕ} {cs : List Char} {spans : List Span}

/-- A split is the same wherever the text stands. -/
lemma shift (h : Splits p cs spans) (n : ℕ) : Splits (p + n) cs (spans.map (Span.shift n)) := by
  induction h with
  | done hblanks => exact .done hblanks
  | @token p blanks lexeme rest t goesOn spans hblanks hlexeme hrest _ ih =>
    rw [show p + blanks.length + lexeme.length + n = p + n + blanks.length + lexeme.length by
      omega] at ih
    have htoken := Splits.token hblanks hlexeme hrest ih
    rw [show p + n + blanks.length = p + blanks.length + n by omega,
      show p + blanks.length + n + lexeme.length = p + blanks.length + lexeme.length + n by
        omega] at htoken
    exact htoken

/-- The spans of a text lie in it. -/
lemma bounds (h : Splits p cs spans) : ∀ x ∈ spans, p ≤ x.start ∧ x.start < x.stop
    ∧ x.stop ≤ p + cs.length := by
  induction h with
  | done => simp
  | @token p blanks lexeme rest t goesOn spans hblanks hlexeme hrest _ ih =>
    have hpos := List.length_pos_iff.2 hlexeme.ne_nil
    simp only [List.length_append]
    intro x hx
    rcases List.mem_cons.1 hx with rfl | hx
    · refine ⟨?_, ?_, ?_⟩ <;> dsimp only <;> omega
    · obtain ⟨h1, h2, h3⟩ := ih x hx
      exact ⟨by omega, h2, by omega⟩

/-- The spans stand in order and do not overlap. -/
lemma pairwise (h : Splits p cs spans) : spans.Pairwise fun a b => a.stop ≤ b.start := by
  induction h with
  | done => exact .nil
  | token _ _ _ htail ih => exact .cons (fun x hx => (htail.bounds x hx).1) ih

/-- What no span covers is blank. -/
lemma isBlank_of_not_covers (h : Splits p cs spans) {k : ℕ} (hk : k < cs.length)
    (hout : ∀ x ∈ spans, ¬ x.Covers (p + k)) : isBlank (cs[k]) := by
  induction h generalizing k with
  | done hblanks => exact hblanks _ (List.getElem_mem hk)
  | @token p blanks lexeme rest t goesOn spans hblanks _ _ _ ih =>
    rcases Nat.lt_or_ge k blanks.length with hlt | hge
    · rw [List.getElem_append_left hlt]
      exact hblanks _ (List.getElem_mem hlt)
    · have hbehind : lexeme.length ≤ k - blanks.length := by
        have hcover := hout _ (List.mem_cons_self ..)
        simp only [Span.Covers] at hcover
        omega
      simp only [List.length_append] at hk
      rw [List.getElem_append_right hge, List.getElem_append_right hbehind]
      refine ih (by omega) fun x hx => ?_
      rw [show p + blanks.length + lexeme.length + (k - blanks.length - lexeme.length) = p + k by
        omega]
      exact hout x (List.mem_cons_of_mem _ hx)

/-- Each span is a lexeme, and what follows it may follow it.  If it stands right behind a character
that goes on with a word, then it is no word itself. -/
lemma exists_lexeme (h : Splits p cs spans) {x : Span} (hx : x ∈ spans) :
    ∃ before lexeme after goesOn, cs = before ++ (lexeme ++ after)
      ∧ x.start = p + before.length ∧ x.stop = p + before.length + lexeme.length
      ∧ Token.Lexeme lexeme x.token goesOn ∧ (∀ c ∈ after.head?, goesOn c = false)
      ∧ ∀ c ∈ before.getLast?, Token.goesOnWord c = false
        ∨ ∀ d ∈ lexeme.head?, Token.goesOnWord d = false := by
  induction h with
  | done => simp at hx
  | @token p blanks lexeme rest t goesOn spans hblanks hlexeme hrest _ ih =>
    rcases List.mem_cons.1 hx with rfl | hx
    · refine ⟨blanks, lexeme, rest, goesOn, rfl, rfl, rfl, hlexeme, hrest, fun c hc => Or.inl ?_⟩
      exact Token.not_goesOnWord_of_isBlank (hblanks c (List.mem_of_getLast? hc))
    · obtain ⟨before, lexeme', after, goesOn', rfl, hstart, hstop, hlexeme', hafter, hlast⟩ := ih hx
      refine ⟨blanks ++ (lexeme ++ before), lexeme', after, goesOn', by simp, ?_, ?_, hlexeme',
        hafter, fun c hc => ?_⟩
      · simp only [List.length_append]
        omega
      · simp only [List.length_append]
        omega
      · rcases List.eq_nil_or_concat before with rfl | ⟨init, last, rfl⟩
        · -- the two lexemes touch
          have hc' : c ∈ lexeme.getLast? := by
            simpa [List.getLast?_append, List.getLast?_eq_some_getLast hlexeme.ne_nil] using hc
          refine hlexeme.last.symm.imp (fun h => h c hc') fun hword d hd => ?_
          subst hword
          refine hrest d ?_
          obtain ⟨tail, rfl⟩ := List.head?_eq_some_iff.1 hd
          rfl
        · refine hlast c ?_
          simpa [List.getLast?_append] using hc

/-- What follows a place may follow it still if blanks come in between. -/
lemma head?_insert {rest blanks : List Char} {goesOn : Char → Bool} {k : ℕ}
    (hrest : ∀ c ∈ rest.head?, goesOn c = false) (hblanks : ∀ c ∈ blanks, goesOn c = false) :
    ∀ c ∈ (rest.take k ++ (blanks ++ rest.drop k)).head?, goesOn c = false := by
  intro c hc
  cases k with
  | zero =>
    cases blanks with
    | nil => exact hrest c (by simpa using hc)
    | cons b blanks => exact hblanks c (by simp_all)
  | succ k =>
    cases rest with
    | nil =>
      cases blanks with
      | nil => simp at hc
      | cons b blanks => exact hblanks c (by simp_all)
    | cons d rest => exact hrest c (by simpa using hc)

lemma isBlank_insert {blanks blanks' : List Char} (hblanks : ∀ c ∈ blanks, isBlank c)
    (hblanks' : ∀ c ∈ blanks', isBlank c) (k : ℕ) :
    ∀ c ∈ blanks'.take k ++ (blanks ++ blanks'.drop k), isBlank c := by
  intro c hc
  simp only [List.mem_append] at hc
  rcases hc with hc | hc | hc
  · exact hblanks' c (List.mem_of_mem_take hc)
  · exact hblanks c hc
  · exact hblanks' c (List.mem_of_mem_drop hc)

/-- Blanks that are put in front of all spans move them. -/
lemma insert_front (h : Splits p cs spans) {k : ℕ} (hfront : ∀ x ∈ spans, p + k ≤ x.start)
    {blanks : List Char} (hblanks : ∀ c ∈ blanks, isBlank c) :
    Splits p (cs.take k ++ (blanks ++ cs.drop k)) (spans.map (Span.shift blanks.length)) := by
  cases h with
  | done hblanks' => exact .done (isBlank_insert hblanks hblanks' k)
  | @token _ blanks' lexeme rest t goesOn spans hblanks' hlexeme hrest htail =>
    have hle : k ≤ blanks'.length := by
      have hfirst := hfront _ (List.mem_cons_self ..)
      dsimp only at hfirst
      omega
    have hlength : (blanks'.take k ++ (blanks ++ blanks'.drop k)).length
        = blanks'.length + blanks.length := by
      simp only [List.length_append, List.length_take, List.length_drop]
      omega
    have hshift := htail.shift blanks.length
    rw [show p + blanks'.length + lexeme.length + blanks.length
      = p + (blanks'.length + blanks.length) + lexeme.length by omega, ← hlength] at hshift
    have hsplit := Splits.token (isBlank_insert hblanks hblanks' k) hlexeme hrest hshift
    rw [List.map_cons, List.take_append_of_le_length hle, List.drop_append_of_le_length hle]
    simpa [hlength, Span.shift, Nat.add_assoc, Nat.add_comm, Nat.add_left_comm] using hsplit

/-- **Blanks can be put in** wherever they do not cut a span in two. -/
theorem insert (h : Splits p cs spans) {k : ℕ} (hk : k ≤ cs.length)
    (hcut : ∀ x ∈ spans, ¬ x.CutAt (p + k)) {blanks : List Char}
    (hblanks : ∀ c ∈ blanks, isBlank c) :
    Splits p (cs.take k ++ (blanks ++ cs.drop k))
      (spans.map (Span.moved (p + k) blanks.length)) := by
  induction h generalizing k with
  | done hblanks' => exact .done (isBlank_insert hblanks hblanks' k)
  | @token p blanks' lexeme rest t goesOn spans hblanks' hlexeme hrest htail ih =>
    rcases Nat.lt_or_ge blanks'.length k with hlt | hle
    · -- behind the first lexeme: it stays, and the text behind it is split anew
      have hbehind : blanks'.length + lexeme.length ≤ k := by
        have hfirst := hcut _ (List.mem_cons_self ..)
        simp only [Span.CutAt] at hfirst
        omega
      obtain ⟨j, rfl⟩ := Nat.exists_eq_add_of_le hbehind
      rw [show p + (blanks'.length + lexeme.length + j)
        = p + blanks'.length + lexeme.length + j by omega] at hcut ⊢
      have hsplit := ih (k := j) (by simp only [List.length_append] at hk; omega)
        fun x hx => hcut x (List.mem_cons_of_mem _ hx)
      have hhead := head?_insert (k := j) hrest fun c hc =>
        hlexeme.not_goesOn_of_isBlank (hblanks c hc)
      have hstart : p + blanks'.length < p + blanks'.length + lexeme.length + j := by
        have hpos := List.length_pos_iff.2 hlexeme.ne_nil
        omega
      rw [List.map_cons, Span.moved_of_lt hstart, ← List.append_assoc blanks' lexeme rest,
        ← List.length_append, List.take_length_add_append, List.drop_length_add_append,
        List.append_assoc, List.append_assoc]
      exact .token hblanks' hlexeme hhead hsplit
    · -- in front of the first lexeme: all spans move
      have hsplit := Splits.token hblanks' hlexeme hrest htail
      have hfront : ∀ x ∈ (⟨t, p + blanks'.length, p + blanks'.length + lexeme.length⟩ : Span)
          :: spans, p + k ≤ x.start := by
        intro x hx
        rcases List.mem_cons.1 hx with rfl | hx
        · exact Nat.add_le_add_left hle p
        · have hstart := (htail.bounds x hx).1
          omega
      rw [List.map_congr_left fun x hx => Span.moved_of_le (hfront x hx)]
      exact hsplit.insert_front hfront hblanks

end Splits

/-! ## The split of a text -/

/-- `LocalSplit text s spans`: the tokens `s` of the text are the spans, which neither leave
anything out but blanks nor depend on each other. -/
structure LocalSplit (text : List Char) (s : TokenStream) (spans : List Span) : Prop where
  /-- The end of the input stands behind the spans and behind the whole text. -/
  tokens : s.toList = spans.map Span.placed ++ [⟨.endOfInput, text.length⟩]
  /-- It stands nowhere else. -/
  ended : ∀ x ∈ spans, x.token ≠ .endOfInput
  inside : ∀ x ∈ spans, x.start < x.stop ∧ x.stop ≤ text.length
  ordered : spans.Pairwise fun a b => a.stop ≤ b.start
  blank : ∀ (p : ℕ) (hp : p < text.length), (∀ x ∈ spans, ¬ x.Covers p) → isBlank (text[p])
  /-- The characters of a span are enough to find its token. -/
  alone : ∀ x ∈ spans, tokenize (x.chars text)
    = .ok ⟨⟨x.token, 0⟩, [⟨.endOfInput, x.stop - x.start⟩]⟩
  /-- Blanks at any place that is not within a span leave the tokens as they are. -/
  insert : ∀ p ≤ text.length, (∀ x ∈ spans, ¬ x.CutAt p) →
    ∀ blanks : List Char, (∀ c ∈ blanks, isBlank c) →
      ∃ s', tokenize (text.take p ++ (blanks ++ text.drop p)) = .ok s'
        ∧ s'.toList.map PlacedToken.token = s.toList.map PlacedToken.token
        ∧ s'.toList = s.toList.map (PlacedToken.moved p blanks.length)

lemma TokenStream.toList_of_spans (spans : List Span) (n : ℕ) :
    (TokenStream.prepend (spans.map Span.placed) ⟨⟨.endOfInput, n⟩, []⟩).toList
      = spans.map Span.placed ++ [⟨.endOfInput, n⟩] :=
  toList_prepend _ _

namespace Splits

variable {text : List Char} {spans : List Span}

lemma ne_endOfInput {p : ℕ} (h : Splits p text spans) {x : Span} (hx : x ∈ spans) :
    x.token ≠ .endOfInput := by
  obtain ⟨_, _, _, _, -, -, -, hlexeme, -⟩ := h.exists_lexeme hx
  exact hlexeme.ne_endOfInput

lemma tokenize_chars (h : Splits 0 text spans) {x : Span} (hx : x ∈ spans) :
    tokenize (x.chars text) = .ok ⟨⟨x.token, 0⟩, [⟨.endOfInput, x.stop - x.start⟩]⟩ := by
  obtain ⟨before, lexeme, after, goesOn, rfl, hstart, hstop, hlexeme, -⟩ := h.exists_lexeme hx
  have hlength : x.stop - x.start = lexeme.length := by omega
  have hchars : x.chars (before ++ (lexeme ++ after)) = lexeme := by
    rw [Span.chars, hlength, hstart, Nat.zero_add, List.drop_left, List.take_left]
  have hsplit : Splits 0 lexeme [⟨x.token, 0, lexeme.length⟩] := by
    have htoken : Splits 0 ([] ++ (lexeme ++ [])) [⟨x.token, 0 + 0, 0 + 0 + lexeme.length⟩] :=
      .token (by simp) hlexeme (by simp) (.done (by simp))
    simpa using htoken
  rw [hchars, hlength]
  exact tokenize_eq_ok_iff.2 ⟨_, hsplit, rfl⟩

lemma exists_tokenize_insert (h : Splits 0 text spans) {p : ℕ} (hp : p ≤ text.length)
    (hcut : ∀ x ∈ spans, ¬ x.CutAt p) {blanks : List Char} (hblanks : ∀ c ∈ blanks, isBlank c) :
    ∃ s', tokenize (text.take p ++ (blanks ++ text.drop p)) = .ok s'
      ∧ s'.toList = (spans.map Span.placed ++ [(⟨.endOfInput, text.length⟩ : PlacedToken)]).map
        (PlacedToken.moved p blanks.length) := by
  have hsplit := h.insert hp (by simpa using hcut) hblanks
  rw [Nat.zero_add] at hsplit
  refine ⟨_, tokenize_eq_ok_iff.2 ⟨_, hsplit, rfl⟩, ?_⟩
  have hend : PlacedToken.moved p blanks.length ⟨.endOfInput, text.length⟩
      = ⟨.endOfInput, (text.take p ++ (blanks ++ text.drop p)).length⟩ := by
    rw [PlacedToken.moved, if_neg (Nat.not_lt.2 hp)]
    simp only [List.length_append, List.length_take, List.length_drop, PlacedToken.mk.injEq,
      true_and]
    omega
  rw [TokenStream.toList_of_spans, List.map_append, List.map_singleton, hend, List.map_map,
    List.map_map]
  simp [Function.comp_def, Span.placed_moved]

end Splits

/-- **The tokens of a text are a lossless and local split of it.**  The end of the input comes last,
behind the whole text; in front of it stand the spans, in order and apart, with nothing but blanks
around them; each is scanned as its token when it stands alone; and blanks that are put in anywhere
but inside a span only move what is behind them. -/
theorem exists_localSplit_of_tokenize {text : List Char} {s : TokenStream}
    (h : tokenize text = .ok s) : ∃ spans, LocalSplit text s spans := by
  obtain ⟨spans, hsplit, rfl⟩ := tokenize_eq_ok_iff.1 h
  have htokens := TokenStream.toList_of_spans spans text.length
  refine ⟨spans, htokens, fun x hx => hsplit.ne_endOfInput hx, fun x hx => ?_, hsplit.pairwise,
    fun p hp hout => hsplit.isBlank_of_not_covers hp (by simpa using hout),
    fun x hx => hsplit.tokenize_chars hx, fun p hp hcut blanks hblanks => ?_⟩
  · obtain ⟨-, hlt, hle⟩ := hsplit.bounds x hx
    exact ⟨hlt, by omega⟩
  · obtain ⟨s', htokenize, hs'⟩ := hsplit.exists_tokenize_insert hp hcut hblanks
    refine ⟨s', htokenize, ?_, by rw [htokens, hs']⟩
    rw [htokens, hs', List.map_map]
    simp [Function.comp_def]

/-- The tokens of this text touch each other, and each but the last could be misread if it did not
end where it does. -/
theorem exists_localSplit_of_tokenize_touching :
    let text := "a<=-1&~'x y'==b.c".toList
    let s : TokenStream := ⟨⟨.column "a" [], 0⟩, [⟨.comparator .le, 1⟩,
      ⟨.literal (.integer (-1)), 3⟩, ⟨.and, 5⟩, ⟨.not, 6⟩, ⟨.literal (.text "x y"), 7⟩,
      ⟨.comparator .eq, 12⟩, ⟨.column "b" ["c"], 14⟩, ⟨.endOfInput, 17⟩]⟩
    tokenize text = .ok s ∧ ∃ spans, LocalSplit text s spans := by
  have h : tokenize "a<=-1&~'x y'==b.c".toList = .ok ⟨⟨.column "a" [], 0⟩, [⟨.comparator .le, 1⟩,
      ⟨.literal (.integer (-1)), 3⟩, ⟨.and, 5⟩, ⟨.not, 6⟩, ⟨.literal (.text "x y"), 7⟩,
      ⟨.comparator .eq, 12⟩, ⟨.column "b" ["c"], 14⟩, ⟨.endOfInput, 17⟩]⟩ := by cbv
  exact ⟨h, exists_localSplit_of_tokenize h⟩

end LinkedTables
