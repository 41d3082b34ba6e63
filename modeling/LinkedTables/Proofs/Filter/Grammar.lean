import Mathlib
import LinkedTables.Filter.Parser

/-!
# The grammar of filters

The parser against the grammar it is meant to accept.  `Derives` is that grammar as a relation
between tokens and filters, without an order of evaluation, a position or a limit; it counts how
many parentheses and negations are open at once at most.

* `Parser.term_sound`, `Parser.expression_sound` — what the parser accepts has a derivation that
  stays within the levels it was given, and the tokens of the derivation are the ones consumed.
* `Parser.accepts_of_derives` — conversely a derivation says what the parser does: it answers the
  filter derived if the levels are enough, and **stops if they are not**.  The second half is why
  the depth in `Derives` is exact and not a bound.

Streams are taken apart by `TokenStream.prepend`, which puts a list of tokens in front of a stream.
The last token of a stream cannot be consumed, and `TokenStream.Ended` says that it is the end of
the input, which no phrase contains.
-/

namespace LinkedTables

open Outcome

/-! ## Streams -/

namespace TokenStream

/-- The stream with more tokens in front. -/
def prepend (ts : List PlacedToken) (s : TokenStream) : TokenStream :=
  ts.foldr (fun t s => s.push t) s

@[simp] lemma prepend_nil (s : TokenStream) : prepend [] s = s := rfl

@[simp] lemma prepend_cons (t : PlacedToken) (ts : List PlacedToken) (s : TokenStream) :
    prepend (t :: ts) s = (prepend ts s).push t := rfl

lemma prepend_append (ts us : List PlacedToken) (s : TokenStream) :
    prepend (ts ++ us) s = prepend ts (prepend us s) := List.foldr_append

@[simp] lemma toList_push (s : TokenStream) (t : PlacedToken) :
    (s.push t).toList = t :: s.toList := rfl

lemma toList_prepend (ts : List PlacedToken) (s : TokenStream) :
    (prepend ts s).toList = ts ++ s.toList := by
  induction ts with
  | nil => rfl
  | cons t ts ih => rw [prepend_cons, toList_push, ih, List.cons_append]

lemma length_toList (s : TokenStream) : s.toList.length = s.later.length + 1 := rfl

@[simp] lemma current_push (s : TokenStream) (t : PlacedToken) : (s.push t).current = t := rfl

@[simp] lemma later_push (s : TokenStream) (t : PlacedToken) : (s.push t).later = s.toList := rfl

@[simp] lemma advance_push (s : TokenStream) (t : PlacedToken) : (s.push t).advance = s := rfl

/-- The last token is the end of the input. -/
def Ended (s : TokenStream) : Prop := ∀ t ∈ s.toList.getLast?, t.token = .endOfInput

@[simp] lemma ended_push {s : TokenStream} {t : PlacedToken} : (s.push t).Ended ↔ s.Ended := by
  simp [Ended, toList]

lemma ended_prepend {ts : List PlacedToken} {s : TokenStream} :
    (prepend ts s).Ended ↔ s.Ended := by
  induction ts with
  | nil => rfl
  | cons t ts ih => rw [prepend_cons, ended_push, ih]

/-- Whatever is not the end of the input stands in front of a rest. -/
lemma Ended.eq_push {s : TokenStream} (h : s.Ended) (hne : s.current.token ≠ .endOfInput) :
    s = s.advance.push s.current ∧ s.advance.Ended := by
  rcases s with ⟨current, later⟩
  cases later with
  | nil => exact absurd (h current (by simp [toList])) hne
  | cons t rest =>
    refine ⟨rfl, fun u hu => h u ?_⟩
    simpa [advance, toList] using hu

end TokenStream

/-! ## Derivations -/

/-- The connectives that chains are made with. -/
inductive Connective where
  | and
  | or
deriving DecidableEq, Repr

namespace Connective

/-- How the connective is written. -/
def token : Connective → Token
  | and => .and
  | or => .or

/-- The filter that a chain of several terms stands for. -/
def node {γ : Type} : Connective → List (Expr γ) → Expr γ
  | and => .and
  | or => .or

end Connective

/-- The kinds of phrases: a term, a chain of terms, and what may follow the first term of a chain.
The terms of a disjunction are conjunctions. -/
inductive Phrase where
  | term
  | chain (c : Connective)
  | more (c : Connective)
deriving DecidableEq, Repr

/-- What the terms of a chain are. -/
def Connective.operand : Connective → Phrase
  | and => .term
  | or => .chain .and

/-- A comparison has a column on one side and a literal on the other; with the literal on the left
the operator is turned round. -/
inductive IsComparison : List PlacedToken → Expr Reference → Prop
  | columnFirst (first : String) (rest : List String) (op : Comparator) (value : Cell)
      (p q r : ℕ) :
      IsComparison [⟨.column first rest, p⟩, ⟨.comparator op, q⟩, ⟨.literal value, r⟩]
        (.compare (.ofPath first rest p) op value)
  | literalFirst (first : String) (rest : List String) (op : Comparator) (value : Cell)
      (p q r : ℕ) :
      IsComparison [⟨.literal value, p⟩, ⟨.comparator op, q⟩, ⟨.column first rest, r⟩]
        (.compare (.ofPath first rest r) op.converse value)

/-- `Derives k d ts es`: the tokens `ts` are a phrase of kind `k`, at most `d` parentheses and
negations are open in it at once, and it stands for the filters `es`.  All phrases stand for one
filter, but what may follow the first term of a chain stands for any number of them.  A chain of one
term stands for that term, and a chain of several terms for one node over all of them. -/
inductive Derives : Phrase → ℕ → List PlacedToken → List (Expr Reference) → Prop
  | comparison {ts : List PlacedToken} {e : Expr Reference} :
      IsComparison ts e → Derives .term 0 ts [e]
  | negation {d : ℕ} {ts : List PlacedToken} {e : Expr Reference} (p : ℕ) :
      Derives .term d ts [e] → Derives .term (d + 1) (⟨.not, p⟩ :: ts) [.not e]
  | parentheses {d : ℕ} {ts : List PlacedToken} {e : Expr Reference} (p q : ℕ) :
      Derives (.chain .or) d ts [e] →
      Derives .term (d + 1) (⟨.leftParen, p⟩ :: (ts ++ [⟨.rightParen, q⟩])) [e]
  | noMore (c : Connective) : Derives (.more c) 0 [] []
  | more {c : Connective} {d d' : ℕ} {ts ts' : List PlacedToken} {e : Expr Reference}
      {es : List (Expr Reference)} (p : ℕ) :
      Derives c.operand d ts [e] → Derives (.more c) d' ts' es →
      Derives (.more c) (max d d') (⟨c.token, p⟩ :: (ts ++ ts')) (e :: es)
  | single {c : Connective} {d : ℕ} {ts : List PlacedToken} {e : Expr Reference} :
      Derives c.operand d ts [e] → Derives (.chain c) d ts [e]
  | several {c : Connective} {d d' : ℕ} {ts ts' : List PlacedToken} {first second : Expr Reference}
      {es : List (Expr Reference)} :
      Derives c.operand d ts [first] → Derives (.more c) d' ts' (second :: es) →
      Derives (.chain c) (max d d') (ts ++ ts') [c.node (first :: second :: es)]

/-- One rule for both chains: the parser wraps the terms if there are several. -/
lemma Derives.chainOf {c : Connective} {d d' : ℕ} {ts ts' : List PlacedToken} {e : Expr Reference}
    {es : List (Expr Reference)} (h : Derives c.operand d ts [e])
    (h' : Derives (.more c) d' ts' es) :
    Derives (.chain c) (max d d') (ts ++ ts') [Parser.chainOf c.node (e :: es)] := by
  cases es with
  | nil =>
    cases h'
    rw [Nat.max_zero, List.append_nil]
    exact .single h
  | cons second es => exact .several h h'

namespace Parser

/-! ## What is accepted has a derivation -/

/-- What a parser accepts is a phrase in which at most `n` levels are open at once, followed by the
tokens it leaves. -/
def Sound (k : Phrase) (n : ℕ) (parser : TokenStream → Outcome (Expr Reference)) : Prop :=
  ∀ {s : TokenStream} {e : Expr Reference} {s' : TokenStream}, s.Ended →
    parser s = parsed e s' →
    s'.Ended ∧ ∃ d ≤ n, ∃ ts, s = s'.prepend ts ∧ Derives k d ts [e]

lemma eq_of_andThen {α β : Type} {o : Outcome α} {next : α → TokenStream → Outcome β} {b : β}
    {s : TokenStream} (h : o.andThen next = parsed b s) :
    ∃ a s', o = parsed a s' ∧ next a s' = parsed b s := by
  cases o with
  | parsed a s' => exact ⟨a, s', rfl, h⟩
  | stopped halt => cases h

lemma eq_of_within {α : Type} {o : Outcome α} {a : α} {s : TokenStream}
    (h : o.within = parsed a s) : o = parsed a s := by
  cases o with
  | parsed b s' => exact h
  | stopped halt => cases h

/-- An operand is one token, which is not the end of the input. -/
lemma operand_sound {missing : Token → SyntaxFault} {s : TokenStream} {o : Operand}
    {s' : TokenStream} (hs : s.Ended) (h : operand missing s = parsed o s') :
    s'.Ended ∧ ∃ t, s = s'.push t ∧
      ((∃ first rest p, t = ⟨.column first rest, p⟩ ∧ o = .column (.ofPath first rest p))
        ∨ ∃ value p, t = ⟨.literal value, p⟩ ∧ o = .literal value p) := by
  simp only [operand] at h
  split at h
  · rename_i first rest htoken
    cases h
    rcases hs.eq_push (by rw [htoken]; simp) with ⟨hpush, hended⟩
    refine ⟨hended, s.current, hpush, Or.inl ⟨first, rest, s.current.position, ?_, rfl⟩⟩
    rw [← htoken]
  · rename_i value htoken
    cases h
    rcases hs.eq_push (by rw [htoken]; simp) with ⟨hpush, hended⟩
    refine ⟨hended, s.current, hpush, Or.inr ⟨value, s.current.position, ?_, rfl⟩⟩
    rw [← htoken]
  · cases h

lemma comparison_sound : Sound .term 0 comparison := by
  intro s e s' hs h
  simp only [comparison] at h
  rcases eq_of_andThen h with ⟨left, s₁, hleft, hrest⟩
  rcases operand_sound hs hleft with ⟨hs₁, t₁, rfl, hl⟩
  split at hrest
  case h_2 => cases hrest
  rename_i op htoken
  rcases hs₁.eq_push (by rw [htoken]; simp) with ⟨hpush, hs₂⟩
  rcases eq_of_andThen hrest with ⟨right, s₃, hright, hboth⟩
  rcases operand_sound hs₂ hright with ⟨hs₃, t₂, hs₃eq, hr⟩
  have hop : s₁.current = ⟨.comparator op, s₁.current.position⟩ := by rw [← htoken]
  -- two columns or two literals do not make a comparison
  rcases hl with ⟨first, rest, p, rfl, rfl⟩ | ⟨value, p, rfl, rfl⟩ <;>
    rcases hr with ⟨first', rest', r, rfl, rfl⟩ | ⟨value', r, rfl, rfl⟩
  · cases hboth
  · cases hboth
    refine ⟨hs₃, 0, le_rfl, _, ?_,
      .comparison (.columnFirst first rest op value' p s₁.current.position r)⟩
    rw [hpush, hs₃eq, hop]
    rfl
  · cases hboth
    refine ⟨hs₃, 0, le_rfl, _, ?_,
      .comparison (.literalFirst first' rest' op value p s₁.current.position r)⟩
    rw [hpush, hs₃eq, hop]
    rfl
  · cases hboth

lemma moreTerms_sound {c : Connective} {n : ℕ} {parser : TokenStream → Outcome (Expr Reference)}
    (hp : Sound c.operand n parser) :
    ∀ {ahead : List PlacedToken} {done : List (Expr Reference)} {s : TokenStream}
      {es : List (Expr Reference)} {s' : TokenStream}, s.Ended →
      moreTerms c.token parser ahead done s = parsed es s' →
      s'.Ended ∧ ∃ d ≤ n, ∃ ts fs, s = s'.prepend ts ∧ es = done.reverse ++ fs
        ∧ Derives (.more c) d ts fs
  | [], done, s, es, s', hs, h => by
      cases h
      exact ⟨hs, 0, Nat.zero_le n, [], [], rfl, by simp, .noMore c⟩
  | t :: ahead, done, s, es, s', hs, h => by
      simp only [moreTerms] at h
      split_ifs at h with hsep
      · rcases hs.eq_push (by rw [hsep]; cases c <;> simp [Connective.token]) with ⟨hpush, hadv⟩
        have hcurrent : s.current = ⟨c.token, s.current.position⟩ := by rw [← hsep]
        cases hterm : parser s.advance with
        | stopped halt => rw [hterm] at h; cases h
        | parsed e s₁ =>
          rw [hterm] at h
          rcases hp hadv hterm with ⟨hs₁, d, hd, ts, hts, he⟩
          rcases moreTerms_sound hp hs₁ h with ⟨hs', d', hd', ts', fs, hts', hes, hfs⟩
          refine ⟨hs', max d d', Nat.max_le.2 ⟨hd, hd'⟩, _, e :: fs, ?_, ?_,
            .more s.current.position he hfs⟩
          · rw [hpush, hts, hts', ← TokenStream.prepend_append, hcurrent]
            rfl
          · simpa using hes
      · cases h
        exact ⟨hs, 0, Nat.zero_le n, [], [], rfl, by simp, .noMore c⟩

lemma chain_sound {c : Connective} {n : ℕ} {parser : TokenStream → Outcome (Expr Reference)}
    (hp : Sound c.operand n parser) : Sound (.chain c) n (chain c.token c.node parser) := by
  intro s e s' hs h
  rcases eq_of_andThen h with ⟨first, s₁, hfirst, h⟩
  rcases eq_of_andThen h with ⟨es, s₂, hmore, h⟩
  cases h
  rcases hp hs hfirst with ⟨hs₁, d, hd, ts, hts, he⟩
  rcases moreTerms_sound hp hs₁ hmore with ⟨hs₂, d', hd', ts', fs, hts', hes, hfs⟩
  refine ⟨hs₂, max d d', Nat.max_le.2 ⟨hd, hd'⟩, ts ++ ts', ?_, ?_⟩
  · rw [hts, hts', TokenStream.prepend_append]
  · rw [hes]
    exact he.chainOf hfs

lemma expression_sound_of_term {n : ℕ} {parser : TokenStream → Outcome (Expr Reference)}
    (hp : Sound .term n parser) : Sound (.chain .or) n (expression parser) :=
  chain_sound (c := .or) (chain_sound (c := .and) hp)

lemma parenthesized_sound {n : ℕ} {parser : TokenStream → Outcome (Expr Reference)}
    (hp : Sound .term n parser) {s : TokenStream} {e : Expr Reference} {s' : TokenStream}
    (hs : s.Ended) (hopen : s.current.token = .leftParen)
    (h : parenthesized parser s = parsed e s') :
    s'.Ended ∧ ∃ d ≤ n + 1, ∃ ts, s = s'.prepend ts ∧ Derives .term d ts [e] := by
  rcases hs.eq_push (by rw [hopen]; simp) with ⟨hpush, hadv⟩
  have hcurrent : s.current = ⟨.leftParen, s.current.position⟩ := by rw [← hopen]
  unfold parenthesized at h
  dsimp only at h
  split_ifs at h
  · cases h
  rcases eq_of_andThen h with ⟨e', s₁, hinner, hclose⟩
  split_ifs at hclose with hright
  cases hclose
  rcases expression_sound_of_term hp hadv hinner with ⟨hs₁, d, hd, ts, hts, he⟩
  rcases hs₁.eq_push (by rw [hright]; simp) with ⟨hpush₁, hs'⟩
  have hcurrent₁ : s₁.current = ⟨.rightParen, s₁.current.position⟩ := by rw [← hright]
  refine ⟨hs', d + 1, Nat.succ_le_succ hd, _, ?_,
    .parentheses s.current.position s₁.current.position he⟩
  rw [TokenStream.prepend_cons, TokenStream.prepend_append, TokenStream.prepend_cons,
    TokenStream.prepend_nil, ← hcurrent, ← hcurrent₁, ← hpush₁, ← hts]
  exact hpush

/-- **Every term that is accepted has a derivation** within the levels given. -/
theorem term_sound (n : ℕ) : Sound .term n (term n) := by
  induction n with
  | zero =>
    intro s e s' hs h
    simp only [term] at h
    split at h
    · cases h
    · cases h
    · exact comparison_sound hs h
  | succ n ih =>
    intro s e s' hs h
    simp only [term] at h
    split at h
    · rename_i hnot
      rcases hs.eq_push (by rw [hnot]; simp) with ⟨hpush, hadv⟩
      have hcurrent : s.current = ⟨.not, s.current.position⟩ := by rw [← hnot]
      rcases eq_of_andThen (eq_of_within h) with ⟨e', s₁, hterm, hrest⟩
      cases hrest
      rcases ih hadv hterm with ⟨hs₁, d, hd, ts, hts, he⟩
      refine ⟨hs₁, d + 1, Nat.succ_le_succ hd, _, ?_, .negation s.current.position he⟩
      rw [TokenStream.prepend_cons, ← hcurrent, ← hts]
      exact hpush
    · rename_i hopen
      exact parenthesized_sound ih hs hopen (eq_of_within h)
    · rcases comparison_sound hs h with ⟨hs', d, hd, ts, hts, he⟩
      exact ⟨hs', d, by omega, ts, hts, he⟩

/-- **Every expression that is accepted has a derivation** within the levels given. -/
theorem expression_sound (n : ℕ) : Sound (.chain .or) n (expression (term n)) :=
  expression_sound_of_term (term_sound n)

/-! ## What has a derivation is accepted

The parser looks at one token behind a chain, to see whether the chain goes on; `Stops` says that it
does not.  `Accepts` is what a derivation of each kind of phrase says about the parser, and the main
statement of this section is that it holds of every derivation.
-/

/-- The parser answers `a` and leaves `s` if the condition holds, and stops if it does not. -/
structure Answers {α : Type} (condition : Prop) (o : Outcome α) (a : α) (s : TokenStream) :
    Prop where
  parses : condition → o = parsed a s
  stops : ¬ condition → ∃ halt, o = stopped halt

lemma Answers.andThen {α β : Type} {p q : Prop} {o : Outcome α} {a : α} {s : TokenStream}
    (h : Answers p o a s) (next : α → TokenStream → Outcome β) {b : β} {s' : TokenStream}
    (h' : Answers q (next a s) b s') : Answers (p ∧ q) (o.andThen next) b s' := by
  constructor
  · rintro ⟨hp, hq⟩
    rw [h.parses hp]
    exact h'.parses hq
  · intro hpq
    by_cases hp : p
    · rw [h.parses hp]
      exact h'.stops fun hq => hpq ⟨hp, hq⟩
    · rcases h.stops hp with ⟨halt, ho⟩
      exact ⟨halt, by rw [ho]; rfl⟩

lemma Answers.within {α : Type} {p : Prop} {o : Outcome α} {a : α} {s : TokenStream}
    (h : Answers p o a s) : Answers p o.within a s := by
  constructor
  · intro hp
    rw [h.parses hp]
    rfl
  · intro hp
    rcases h.stops hp with ⟨halt, ho⟩
    rw [ho]
    exact ⟨_, rfl⟩

lemma Answers.of_parsed {α : Type} {p : Prop} {o : Outcome α} {a : α} {s : TokenStream} (hp : p)
    (h : o = parsed a s) : Answers p o a s := ⟨fun _ => h, fun hn => absurd hp hn⟩

lemma Answers.congr {α : Type} {p q : Prop} {o : Outcome α} {a : α} {s : TokenStream}
    (h : Answers p o a s) (hpq : p ↔ q) : Answers q o a s :=
  ⟨fun hq => h.parses (hpq.2 hq), fun hq => h.stops fun hp => hq (hpq.1 hp)⟩

/-- The parser of the terms of a chain, in which `n` levels may be opened. -/
def operandParser (n : ℕ) : Connective → TokenStream → Outcome (Expr Reference)
  | .and => term n
  | .or => chain .and .and (term n)

/-- No chain of this connective goes on here. -/
def Stops : Connective → TokenStream → Prop
  | .and, s => s.current.token ≠ .and
  | .or, s => s.current.token ≠ .and ∧ s.current.token ≠ .or

lemma Stops.ne {c : Connective} {s : TokenStream} (h : Stops c s) : s.current.token ≠ c.token := by
  cases c with
  | and => exact h
  | or => exact h.2

/-- What a derivation says about the parser. -/
def Accepts : Phrase → ℕ → List PlacedToken → List (Expr Reference) → Prop
  | .term, d, ts, es => ∀ e, es = [e] → ∀ n s, Answers (d ≤ n) (term n (s.prepend ts)) e s
  | .chain c, d, ts, es => ∀ e, es = [e] → ∀ n s, Stops c s →
      Answers (d ≤ n) (chain c.token c.node (operandParser n c) (s.prepend ts)) e s
  | .more c, d, ts, es => ∀ n s ahead done, Stops c s → es.length ≤ ahead.length →
      Answers (d ≤ n) (moreTerms c.token (operandParser n c) ahead done (s.prepend ts))
        (done.reverse ++ es) s

/-- A term of a chain ends where the chain goes on, and where it ends. -/
lemma Accepts.operand {c : Connective} {d : ℕ} {ts : List PlacedToken} {e : Expr Reference}
    (h : Accepts c.operand d ts [e]) (n : ℕ) {s : TokenStream}
    (hs : s.current.token = c.token ∨ Stops c s) :
    Answers (d ≤ n) (operandParser n c (s.prepend ts)) e s := by
  cases c with
  | and => exact h e rfl n s
  | or =>
    refine h e rfl n s ?_
    rcases hs with hs | hs
    · intro hand
      rw [hand] at hs
      cases hs
    · exact hs.1

/-- The tokens that go on a chain begin with its connective. -/
lemma current_prepend_more {c : Connective} {d : ℕ} {ts : List PlacedToken}
    {es : List (Expr Reference)} (h : Derives (.more c) d ts es) {s : TokenStream}
    (hs : Stops c s) :
    (s.prepend ts).current.token = c.token ∨ Stops c (s.prepend ts) := by
  cases h with
  | noMore => exact Or.inr hs
  | more p he hes => exact Or.inl rfl

/-- Every further term of a chain takes a token at least. -/
lemma length_le_of_more {k : Phrase} {d : ℕ} {ts : List PlacedToken} {es : List (Expr Reference)}
    (h : Derives k d ts es) : ∀ c, k = .more c → es.length ≤ ts.length := by
  induction h with
  | noMore => simp
  | more p he hes _ ih =>
    intro c hc
    have := ih c hc
    simp only [List.length_cons, List.length_append]
    omega
  | _ => simp

/-- A phrase other than the further terms of a chain does not begin with a closing parenthesis, nor
with the end of the input. -/
lemma exists_first_token {k : Phrase} {d : ℕ} {ts : List PlacedToken} {es : List (Expr Reference)}
    (h : Derives k d ts es) : (∀ c, k ≠ .more c) →
      ∃ t us, ts = t :: us ∧ t.token ≠ .rightParen ∧ t.token ≠ .endOfInput := by
  induction h with
  | comparison hc =>
    intro _
    cases hc with
    | columnFirst => exact ⟨_, _, rfl, by simp, by simp⟩
    | literalFirst => exact ⟨_, _, rfl, by simp, by simp⟩
  | negation p _ _ => exact fun _ => ⟨_, _, rfl, by simp, by simp⟩
  | parentheses p q _ _ => exact fun _ => ⟨_, _, rfl, by simp, by simp⟩
  | noMore c => exact fun hk => absurd rfl (hk c)
  | @more c => exact fun hk => absurd rfl (hk c)
  | @single c _ _ _ _ ih =>
    intro _
    exact ih fun c' => by cases c <;> simp [Connective.operand]
  | @several c d d' ts ts' first second es _ _ ih _ =>
    intro _
    rcases ih (by cases c <;> simp [Connective.operand]) with ⟨t, us, rfl, h1, h2⟩
    exact ⟨t, us ++ ts', rfl, h1, h2⟩

lemma accepts_comparison {ts : List PlacedToken} {e : Expr Reference} (h : IsComparison ts e) :
    Accepts .term 0 ts [e] := by
  intro e' he n s
  cases he
  refine .of_parsed (Nat.zero_le n) ?_
  cases h <;> cases n <;> rfl

lemma accepts_negation {d p : ℕ} {ts : List PlacedToken} {e : Expr Reference}
    (ih : Accepts .term d ts [e]) : Accepts .term (d + 1) (⟨.not, p⟩ :: ts) [.not e] := by
  intro e' he n s
  cases he
  cases n with
  | zero => exact ⟨fun h => absurd h (by omega), fun _ => ⟨_, rfl⟩⟩
  | succ n =>
    have h := (ih e rfl n s).andThen (fun e s => parsed (Expr.not e) s) (.of_parsed trivial rfl)
    exact h.within.congr (by rw [and_true, Nat.succ_le_succ_iff])

lemma accepts_parentheses {d p q : ℕ} {ts : List PlacedToken} {e : Expr Reference}
    (hd : Derives (.chain .or) d ts [e]) (ih : Accepts (.chain .or) d ts [e]) :
    Accepts .term (d + 1) (⟨.leftParen, p⟩ :: (ts ++ [⟨.rightParen, q⟩])) [e] := by
  intro e' he n s
  cases he
  cases n with
  | zero => exact ⟨fun h => absurd h (by omega), fun _ => ⟨_, rfl⟩⟩
  | succ n =>
    rcases exists_first_token hd (by simp) with ⟨t, us, rfl, hright, _⟩
    have hinner := ih e rfl n (s.push ⟨.rightParen, q⟩) (by simp [Stops])
    have h : Answers (d ≤ n) (parenthesized (term n)
        (s.prepend (⟨.leftParen, p⟩ :: (t :: us ++ [⟨.rightParen, q⟩])))) e s := by
      unfold parenthesized
      dsimp only
      rw [TokenStream.prepend_cons, TokenStream.advance_push, TokenStream.prepend_append]
      rw [if_neg (by simpa using hright)]
      refine Answers.congr (p := d ≤ n ∧ True) ?_ (by rw [and_true])
      exact hinner.andThen _ (.of_parsed trivial rfl)
    exact h.within.congr (by omega)

lemma accepts_noMore (c : Connective) : Accepts (.more c) 0 [] [] := by
  intro n s ahead done hs _
  refine .of_parsed (Nat.zero_le n) ?_
  cases ahead with
  | nil => simp [moreTerms]
  | cons t ahead => simp [moreTerms, hs.ne]

/-- A chain that goes on is parsed term by term. -/
lemma moreTerms_push (separator : Token) (parser : TokenStream → Outcome (Expr Reference))
    (t : PlacedToken) (ahead : List PlacedToken) (done : List (Expr Reference)) (p : ℕ)
    (s : TokenStream) :
    moreTerms separator parser (t :: ahead) done (s.push ⟨separator, p⟩)
      = (parser s).andThen fun e s => moreTerms separator parser ahead (e :: done) s := by
  rw [moreTerms, TokenStream.current_push, TokenStream.advance_push, if_pos rfl]
  cases parser s <;> rfl

lemma accepts_more {c : Connective} {d d' p : ℕ} {ts ts' : List PlacedToken} {e : Expr Reference}
    {es : List (Expr Reference)} (hes : Derives (.more c) d' ts' es)
    (ih : Accepts c.operand d ts [e]) (ih' : Accepts (.more c) d' ts' es) :
    Accepts (.more c) (max d d') (⟨c.token, p⟩ :: (ts ++ ts')) (e :: es) := by
  intro n s ahead done hs hlen
  cases ahead with
  | nil => simp at hlen
  | cons t ahead =>
    have hterm := ih.operand n (current_prepend_more hes hs)
    have hrest := ih' n s ahead (e :: done) hs (by simpa using hlen)
    have hboth := hterm.andThen
      (fun e s => moreTerms c.token (operandParser n c) ahead (e :: done) s) hrest
    rw [TokenStream.prepend_cons, TokenStream.prepend_append, moreTerms_push,
      show done.reverse ++ e :: es = (e :: done).reverse ++ es by simp]
    exact hboth.congr Nat.max_le.symm

/-- A chain is accepted, whether the parser has to wrap its terms or not. -/
lemma accepts_chainOf {c : Connective} {d d' : ℕ} {ts ts' : List PlacedToken} {e : Expr Reference}
    {es : List (Expr Reference)} (hes : Derives (.more c) d' ts' es)
    (ih : Accepts c.operand d ts [e]) (ih' : Accepts (.more c) d' ts' es) :
    Accepts (.chain c) (max d d') (ts ++ ts') [chainOf c.node (e :: es)] := by
  intro e' he n s hs
  cases he
  have hlen : es.length ≤ (s.prepend ts').toList.length := by
    have hmore := length_le_of_more hes c rfl
    rw [TokenStream.toList_prepend, List.length_append]
    omega
  have hterm := ih.operand n (current_prepend_more hes hs)
  have hrest := ih' n s (s.prepend ts').toList [e] hs hlen
  have hwhole := hterm.andThen (fun first s =>
    (moreTerms c.token (operandParser n c) s.toList [first] s).andThen fun terms s =>
      parsed (chainOf c.node terms) s) (hrest.andThen _ (.of_parsed trivial rfl))
  rw [TokenStream.prepend_append]
  exact hwhole.congr (by rw [and_true, Nat.max_le])

/-- **A derivation says what the parser does**: it accepts the phrase if the levels are enough, and
stops if they are not. -/
theorem accepts_of_derives {k : Phrase} {d : ℕ} {ts : List PlacedToken}
    {es : List (Expr Reference)} (h : Derives k d ts es) : Accepts k d ts es := by
  induction h with
  | comparison hc => exact accepts_comparison hc
  | negation p _ ih => exact accepts_negation ih
  | parentheses p q hd ih => exact accepts_parentheses hd ih
  | noMore c => exact accepts_noMore c
  | more p _ hes ih ih' => exact accepts_more hes ih ih'
  | single _ ih => simpa [chainOf] using accepts_chainOf (.noMore _) ih (accepts_noMore _)
  | several _ hes ih ih' => exact accepts_chainOf hes ih ih'

end Parser

end LinkedTables
