import Mathlib
import LinkedTables.Proofs.Filter.Grammar
import LinkedTables.Proofs.Filter.Lexemes

/-!
# The filters that the grammar derives

`Parser.expression` leaves what stands behind an expression alone; `Parser.parse` wants the end of
the input there.  For the tokens of a whole text it accepts exactly what the grammar derives within
the limit (`exists_grammatical_of_tokenize`).

* **Soundness** (`Parser.derives_of_parse`).  The end of the input stands behind the tokens of a
  text and nowhere else, so an expression that is followed by it has taken all of them.
* **Completeness** (`Parser.parse_of_derives`).  All tokens are one expression, so the parser either
  reaches their end or stops, and it stops exactly if the levels are too many.
* **Unambiguity** (`Derives.unique`).  This needs no look at the grammar: the parser is a function,
  and `Parser.accepts_of_derives` says of every derivation what its filter is and at which number of
  levels it begins to stop.
-/

namespace LinkedTables

open Outcome

/-- A text is parsed by the tokens that are found in it. -/
lemma parseFilter_eq_bind (text : String) :
    parseFilter text = tokenize text.toList >>= fun s => (Parser.parse ⟨s, 0⟩).1 := by
  simp only [parseFilter, Parser.ofText]
  cases tokenize text.toList <;> rfl

namespace Derives

variable {d d' : ℕ} {ts : List PlacedToken} {e e' : Expr Reference}

/-- What the parser does with an expression that nothing follows. -/
lemma answers (h : Derives (.chain .or) d ts [e]) (n p : ℕ) :
    Parser.Answers (d ≤ n) (Parser.expression (Parser.term n)
      (TokenStream.prepend ts ⟨⟨.endOfInput, p⟩, []⟩)) e ⟨⟨.endOfInput, p⟩, []⟩ :=
  Parser.accepts_of_derives h e rfl n _ (by simp [Parser.Stops])

lemma filter_eq (h : Derives (.chain .or) d ts [e]) (h' : Derives (.chain .or) d' ts [e']) :
    e = e' := by
  -- levels that are enough for both
  have hparsed := (h.answers (max d d') 0).parses (le_max_left d d')
  rw [(h'.answers (max d d') 0).parses (le_max_right d d')] at hparsed
  cases hparsed
  rfl

lemma levels_le (h : Derives (.chain .or) d ts [e]) (h' : Derives (.chain .or) d' ts [e']) :
    d ≤ d' := by
  -- with `d'` levels the parser does not stop
  by_contra hlt
  rcases (h.answers d' 0).stops hlt with ⟨halt, hstopped⟩
  rw [(h'.answers d' 0).parses le_rfl] at hstopped
  cases hstopped

/-- **The grammar is unambiguous**: tokens are one filter at most, in one nesting. -/
theorem unique (h : Derives (.chain .or) d ts [e]) (h' : Derives (.chain .or) d' ts [e']) :
    e = e' ∧ d = d' :=
  ⟨h.filter_eq h', le_antisymm (h.levels_le h') (h'.levels_le h)⟩

end Derives

/-! ## Whole texts -/

lemma TokenStream.eq_of_prepend_end {tokens ts : List PlacedToken} {s : TokenStream} {p : ℕ}
    (htokens : ∀ t ∈ tokens, t.token ≠ .endOfInput) (hs : s.current.token = .endOfInput)
    (h : prepend tokens ⟨⟨.endOfInput, p⟩, []⟩ = prepend ts s) : ts = tokens := by
  have hlist := congrArg toList h
  rw [toList_prepend, toList_prepend] at hlist
  rcases List.append_eq_append_iff.1 hlist with ⟨us, hts, hend⟩ | ⟨us, htokens_eq, hrest⟩
  · cases us with
    | nil => rw [hts, List.append_nil]
    | cons u us => simp [toList] at hend
  · cases us with
    | nil => rw [htokens_eq, List.append_nil]
    | cons u us =>
      -- the first token behind `ts` is the end of the input
      have hu : s.current = u := (List.cons.inj hrest).1
      refine absurd hs (hu ▸ htokens u ?_)
      rw [htokens_eq]
      exact List.mem_append_right ts (List.mem_cons_self ..)

namespace Parser

variable {tokens : List PlacedToken} {p : ℕ}

/-- What is accepted is followed by the end of the input, and the parser is left there. -/
lemma exists_of_parse {s : TokenStream} {depth : ℕ} {e : Expr Reference}
    (h : (parse ⟨s, depth⟩).1 = .ok e) :
    ∃ behind, expression (term (maxNesting - depth)) s = parsed e behind
      ∧ behind.current.token = .endOfInput ∧ (parse ⟨s, depth⟩).2 = ⟨behind, depth⟩ := by
  simp only [parse] at h ⊢
  split at h
  · cases h
  · rename_i hs
    rw [if_neg hs]
    split at h
    · cases h
    · rename_i e' behind hparsed
      dsimp only at h
      split at h
      · rename_i hend
        cases h
        exact ⟨behind, hparsed, hend, rfl⟩
      · cases h
      · cases h

lemma parse_of_parsed {s behind : TokenStream} {e : Expr Reference}
    (hs : s.current.token ≠ .endOfInput) (h : expression (term maxNesting) s = parsed e behind)
    (hbehind : behind.current.token = .endOfInput) : (parse ⟨s, 0⟩).1 = .ok e := by
  rw [parse]
  dsimp only
  rw [if_neg hs, Nat.sub_zero, h]
  dsimp only
  rw [hbehind]

lemma parse_of_stopped {s : TokenStream} {halt : Halt} (hs : s.current.token ≠ .endOfInput)
    (h : expression (term maxNesting) s = stopped halt) :
    (parse ⟨s, 0⟩).1 = .error halt.error := by
  rw [parse]
  dsimp only
  rw [if_neg hs, Nat.sub_zero, h]

/-- **What is accepted has a derivation** from all tokens, within the limit. -/
theorem derives_of_parse {e : Expr Reference} (htokens : ∀ t ∈ tokens, t.token ≠ .endOfInput)
    (h : (parse ⟨TokenStream.prepend tokens ⟨⟨.endOfInput, p⟩, []⟩, 0⟩).1 = .ok e) :
    ∃ d ≤ maxNesting, Derives (.chain .or) d tokens [e] := by
  rcases exists_of_parse h with ⟨behind, hparsed, hend, -⟩
  have hended : (TokenStream.prepend tokens ⟨⟨.endOfInput, p⟩, []⟩).Ended := by
    rw [TokenStream.ended_prepend]
    simp [TokenStream.Ended, TokenStream.toList]
  rcases expression_sound maxNesting hended hparsed with ⟨-, d, hd, ts, hts, hderives⟩
  rw [TokenStream.eq_of_prepend_end htokens hend hts] at hderives
  exact ⟨d, hd, hderives⟩

/-- **What has a derivation from all tokens is accepted** if its levels are within the limit, and
refused if they are not. -/
theorem parse_of_derives {d : ℕ} {e : Expr Reference} (h : Derives (.chain .or) d tokens [e]) :
    (d ≤ maxNesting →
        (parse ⟨TokenStream.prepend tokens ⟨⟨.endOfInput, p⟩, []⟩, 0⟩).1 = .ok e)
      ∧ (maxNesting < d → ∃ fault,
        (parse ⟨TokenStream.prepend tokens ⟨⟨.endOfInput, p⟩, []⟩, 0⟩).1 = .error fault) := by
  rcases exists_first_token h (by simp) with ⟨t, us, rfl, -, hfirst⟩
  have hanswers := h.answers maxNesting p
  refine ⟨fun hle => parse_of_parsed hfirst (hanswers.parses hle) rfl, fun hlt => ?_⟩
  rcases hanswers.stops (Nat.not_le.2 hlt) with ⟨halt, hstopped⟩
  exact ⟨halt.error, parse_of_stopped hfirst hstopped⟩

end Parser

example : parseFilter "a == 1 & 2 < b | ~((c == 3))" = .ok
    (.or [.and [.compare ⟨.plain "a", 0⟩ .eq (.integer 1),
        .compare ⟨.plain "b", 13⟩ .gt (.integer 2)],
      .not (.compare ⟨.plain "c", 20⟩ .eq (.integer 3))]) := by
  cbv

end LinkedTables
