import Mathlib
import LinkedTables.Proofs.Filter.Lexemes

/-!
# The lexical grammar

How each token is written, without the scan that recognises it.  `Lexeme cs t goesOn` says that the
characters `cs` are a way to write the token `t`, and that a character for which `goesOn` holds must
not come right after them: it would belong to the token, or make it a fault.

The scan recognises this grammar: `Lexeme.scan_append` says that a lexeme is scanned as its token
wherever what follows may follow it, and `exists_lexeme_of_scan` that nothing else is scanned.  So a
token depends on its own characters and on one more, and this one matters only if it `goesOn`.
-/

namespace LinkedTables

open Text

namespace Token

/-- A token that is written with the same signs always; `refused`, if there is such a character,
must not come right after them. -/
structure Sign where
  chars : List Char
  token : Token
  refused : Option Char

/-- The tokens that are neither a literal nor a column. -/
def signs : List Sign :=
  [⟨['('], .leftParen, none⟩, ⟨[')'], .rightParen, none⟩, ⟨['~'], .not, none⟩,
    ⟨['&'], .and, '&'⟩, ⟨['|'], .or, '|'⟩,
    ⟨['=', '='], .comparator .eq, none⟩, ⟨['!', '='], .comparator .ne, none⟩,
    ⟨['<', '='], .comparator .le, none⟩, ⟨['<'], .comparator .lt, '='⟩,
    ⟨['>', '='], .comparator .ge, none⟩, ⟨['>'], .comparator .gt, '='⟩]

/-- What goes on with a number or a path. -/
def goesOnWord (c : Char) : Bool := isNameChar c || c == '.'

lemma endsWord_iff {rest : List Char} : EndsWord rest ↔ ∀ c ∈ rest.head?, goesOnWord c = false := by
  simp [EndsWord, goesOnWord]

lemma not_goesOnWord_of_isBlank {c : Char} (hc : isBlank c) : goesOnWord c = false := by
  have hdot : c ≠ '.' := by
    rintro rfl
    exact absurd hc (by decide)
  simp [goesOnWord, not_isNameChar_of_isBlank hc, hdot]

/-- `Lexeme cs t goesOn`: the characters `cs` are a way to write the token `t`, if no character for
which `goesOn` holds comes right after them. -/
inductive Lexeme : List Char → Token → (Char → Bool) → Prop
  | sign {s : Sign} : s ∈ signs → Lexeme s.chars s.token fun c => s.refused == some c
  | quoted {quote : Char} {content : List Char} : quote = '\'' ∨ quote = '"' → quote ∉ content →
      Lexeme (quote :: (content ++ [quote])) (.literal (.text (String.ofList content)))
        fun _ => false
  | number {negative : Bool} {whole places : List Char} {value : Cell} :
      (∀ d ∈ whole, isDigit d) → whole ≠ [] → (∀ d ∈ places, isDigit d) →
      numberCell? negative whole places = some value →
      Lexeme (numberChars negative whole places) (.literal value) goesOnWord
  | path {first : String} {rest : List String} : (∀ s ∈ first :: rest, IsName s) →
      Lexeme (pathChars first rest) (ofPath first rest) goesOnWord

namespace Lexeme

variable {cs : List Char} {t : Token} {goesOn : Char → Bool}

lemma ne_nil (h : Lexeme cs t goesOn) : cs ≠ [] := by
  cases h with
  | sign hs => exact (by decide : ∀ s ∈ signs, s.chars ≠ []) _ hs
  | quoted => simp
  | number _ hne => simp [numberChars, hne]
  | @path first rest hnames =>
    obtain ⟨c, tail, hfirst, -⟩ := hnames first (by simp)
    simp [pathChars, hfirst]

lemma ne_endOfInput (h : Lexeme cs t goesOn) : t ≠ .endOfInput := by
  cases h with
  | sign hs => exact (by decide : ∀ s ∈ signs, s.token ≠ .endOfInput) _ hs
  | quoted | number => simp
  | @path first rest _ =>
    cases rest with
    | nil =>
      rw [ofPath]
      cases keyword? first <;> simp
    | cons => simp [ofPath]

/-- A blank may come right after every lexeme. -/
lemma not_goesOn_of_isBlank (h : Lexeme cs t goesOn) {c : Char} (hc : isBlank c) :
    goesOn c = false := by
  cases h with
  | @sign s hs =>
    have key : (signs.all fun s => s.refused.all fun d => !isBlank d) = true := by decide
    refine beq_eq_false_iff_ne.2 fun hrefused => ?_
    have hnot := List.all_eq_true.1 key s hs
    rw [hrefused, Option.all_some, hc] at hnot
    cases hnot
  | quoted => rfl
  | number | path => exact not_goesOnWord_of_isBlank hc

/-- A lexeme goes on as a word does, or its last character is no part of a word. -/
lemma last (h : Lexeme cs t goesOn) :
    goesOn = goesOnWord ∨ ∀ c ∈ cs.getLast?, goesOnWord c = false := by
  cases h with
  | @sign s hs =>
    have key : (signs.all fun s => s.chars.getLast?.all fun d => !goesOnWord d) = true := by decide
    right
    intro c hc
    have hnot := List.all_eq_true.1 key s hs
    rw [Option.mem_def.1 hc, Option.all_some] at hnot
    simpa using hnot
  | @quoted quote content hquote _ =>
    right
    intro c hc
    rw [← List.cons_append, List.getLast?_append, List.getLast?_singleton, Option.some_or] at hc
    cases hc
    rcases hquote with rfl | rfl <;> decide
  | number | path => exact Or.inl rfl

end Lexeme

/-! ## A lexeme is scanned as its token -/

lemma scan_sign {s : Sign} {rest : List Char} (hs : s ∈ signs)
    (hrest : ∀ c ∈ rest.head?, (s.refused == some c) = false) :
    scan (s.chars ++ rest) = ⟨.ok s.token, s.chars.length⟩ := by
  have hhead : ∀ c, s.refused = some c → rest.head? ≠ some c := by
    intro c hc hmem
    simpa [hc] using hrest c hmem
  simp only [signs, List.mem_cons, List.not_mem_nil, or_false] at hs
  rcases hs with rfl | rfl | rfl | rfl | rfl | rfl | rfl | rfl | rfl | rfl | rfl
  -- what follows matters to four of the signs only
  exacts [rfl, rfl, rfl, by simp [scan, scanConnective, hhead '&' rfl],
    by simp [scan, scanConnective, hhead '|' rfl], rfl, rfl, rfl,
    by simp [scan, scanComparator, hhead '=' rfl], rfl,
    by simp [scan, scanComparator, hhead '=' rfl]]

lemma scan_quoted {quote : Char} {content : List Char} (rest : List Char)
    (hquote : quote = '\'' ∨ quote = '"') (hcontent : quote ∉ content) :
    scan (quote :: (content ++ [quote]) ++ rest)
      = ⟨.ok (.literal (.text (String.ofList content))),
        (quote :: (content ++ [quote])).length⟩ := by
  have hscan := scanQuoted_eq rest hcontent
  rw [show quote :: (content ++ [quote]) ++ rest = quote :: (content ++ quote :: rest) by simp,
    show (quote :: (content ++ [quote])).length = content.length + 2 by simp]
  rcases hquote with rfl | rfl <;> exact hscan

/-- **A lexeme is scanned as its token** in front of everything that may follow it. -/
theorem Lexeme.scan_append {cs rest : List Char} {t : Token} {goesOn : Char → Bool}
    (h : Lexeme cs t goesOn) (hrest : ∀ c ∈ rest.head?, goesOn c = false) :
    scan (cs ++ rest) = ⟨.ok t, cs.length⟩ := by
  cases h with
  | sign hs => exact scan_sign hs hrest
  | quoted hquote hcontent => exact scan_quoted rest hquote hcontent
  | number hwhole hne hplaces hvalue =>
    exact scan_number hwhole hne hplaces hvalue (endsWord_iff.2 hrest)
  | path hnames => exact scan_path hnames (endsWord_iff.2 hrest)

/-! ## Nothing else is scanned -/

/-- What is scanned is a lexeme, and what follows it may follow it. -/
def Scanned (cs : List Char) (t : Token) (used : ℕ) : Prop :=
  ∃ lexeme rest goesOn, cs = lexeme ++ rest ∧ used = lexeme.length ∧ Lexeme lexeme t goesOn
    ∧ ∀ c ∈ rest.head?, goesOn c = false

lemma Scanned.of_sign {s : Sign} (hs : s ∈ signs) {rest : List Char}
    (hrest : ∀ c ∈ rest.head?, (s.refused == some c) = false) :
    Scanned (s.chars ++ rest) s.token s.chars.length :=
  ⟨s.chars, rest, _, rfl, rfl, .sign hs, hrest⟩

lemma scanned_of_scanConnective {c : Char} {token t : Token} {rest : List Char} {used : ℕ}
    (hs : ⟨[c], token, some c⟩ ∈ signs) (h : scanConnective c token rest = ⟨.ok t, used⟩) :
    Scanned (c :: rest) t used := by
  unfold scanConnective at h
  split_ifs at h with hhead
  · cases h
  · cases h
    have hrest : ∀ d ∈ rest.head?, (some c == some d) = false := fun d hd => by
      simpa using fun heq : c = d => hhead (heq ▸ hd)
    exact Scanned.of_sign hs hrest

lemma scanned_of_scanComparator {c : Char} {op : Comparator}
    {alone : Except (ℕ × SyntaxFault) Token} {t : Token} {rest : List Char} {used : ℕ}
    (hs : ⟨[c, '='], .comparator op, none⟩ ∈ signs)
    (halone : ∀ t, alone = .ok t → ⟨[c], t, some '='⟩ ∈ signs)
    (h : scanComparator op alone rest = ⟨.ok t, used⟩) : Scanned (c :: rest) t used := by
  unfold scanComparator at h
  split_ifs at h with hhead
  · cases h
    obtain ⟨rest, rfl⟩ := List.head?_eq_some_iff.1 hhead
    exact Scanned.of_sign hs (by simp)
  · cases h
    have hrest : ∀ d ∈ rest.head?, (some '=' == some d) = false := fun d hd => by
      simpa using fun heq : '=' = d => hhead (heq ▸ hd)
    exact Scanned.of_sign (halone t rfl) hrest

lemma scanned_of_scanQuoted {quote : Char} {rest : List Char} {t : Token} {used : ℕ}
    (hquote : quote = '\'' ∨ quote = '"') (h : scanQuoted quote rest = ⟨.ok t, used⟩) :
    Scanned (quote :: rest) t used := by
  have hcontent : quote ∉ rest.takeWhile (· != quote) := fun hmem => by
    simpa using List.mem_takeWhile_imp hmem
  unfold scanQuoted at h
  dsimp only at h
  split_ifs at h with hlength
  · cases h
  -- what stops the content is the closing quote
  have hsplit := List.takeWhile_append_dropWhile (p := (· != quote)) (l := rest)
  cases hdrop : rest.dropWhile (· != quote) with
  | nil =>
    rw [hdrop, List.append_nil] at hsplit
    exact absurd (congrArg List.length hsplit) hlength
  | cons c behind =>
    have hc : c = quote := by
      have hhead := List.head?_dropWhile_not (· != quote) rest
      simpa [hdrop] using hhead
    rw [hdrop, hc] at hsplit
    generalize rest.takeWhile (· != quote) = content at h hcontent hsplit
    cases h
    refine ⟨quote :: (content ++ [quote]), behind, _, ?_, by simp, .quoted hquote hcontent, ?_⟩
    · rw [List.cons_append, List.append_assoc, List.singleton_append, hsplit]
    · exact fun _ _ => rfl

lemma eq_places_append (cs : List Char) :
    ∃ rest, cs = (if (placesOf cs).isEmpty then [] else '.' :: placesOf cs) ++ rest := by
  cases hplaces : (placesOf cs).isEmpty with
  | true => exact ⟨cs, rfl⟩
  | false =>
    unfold placesOf at hplaces ⊢
    split at hplaces
    · rename_i rest
      exact ⟨rest.dropWhile isDigit, by simp [List.takeWhile_append_dropWhile]⟩
    · cases hplaces

lemma isDigit_of_mem_placesOf {cs : List Char} {d : Char} (h : d ∈ placesOf cs) : isDigit d := by
  unfold placesOf at h
  split at h
  · exact List.mem_takeWhile_imp h
  · cases h

lemma exists_of_scanNumber {negative : Bool} {cs : List Char} {t : Token} {used : ℕ}
    (h : scanNumber negative cs = ⟨.ok t, used⟩) :
    ∃ whole places value rest, cs = numberChars false whole places ++ rest
      ∧ used = (numberChars negative whole places).length ∧ whole = cs.takeWhile isDigit
      ∧ (∀ d ∈ places, isDigit d) ∧ numberCell? negative whole places = some value
      ∧ t = .literal value ∧ EndsWord rest := by
  obtain ⟨rest, hrest⟩ := eq_places_append (cs.drop (cs.takeWhile isDigit).length)
  have hcs : cs = numberChars false (cs.takeWhile isDigit)
      (placesOf (cs.drop (cs.takeWhile isDigit).length)) ++ rest := by
    have htake := List.prefix_iff_eq_append.1 (List.takeWhile_prefix isDigit (l := cs))
    calc cs = cs.takeWhile isDigit ++ cs.drop (cs.takeWhile isDigit).length := htake.symm
      _ = _ := by
        conv_lhs => rw [hrest]
        simp [numberChars]
  unfold scanNumber at h
  dsimp only at h
  generalize hwhole : cs.takeWhile isDigit = whole at h hcs
  have hplaces : ∀ d ∈ placesOf (cs.drop whole.length), isDigit d :=
    fun d hd => isDigit_of_mem_placesOf hd
  generalize placesOf (cs.drop whole.length) = places at h hcs hplaces
  rw [show cs.drop (numberChars false whole places).length = rest by
    rw [hcs, List.drop_left]] at h
  split_ifs at h with hnext
  · cases h
  · split at h
    · rename_i value hvalue
      cases h
      refine ⟨whole, places, value, rest, hcs, rfl, rfl, hplaces, hvalue, rfl, fun c hc => ?_⟩
      simpa [Option.mem_def.1 hc] using hnext
    · cases h

lemma scanned_of_scanNumber {negative : Bool} {cs : List Char} {t : Token} {used : ℕ}
    (hc : cs.head?.any isDigit) (h : scanNumber negative cs = ⟨.ok t, used⟩) :
    Scanned ((if negative then ['-'] else []) ++ cs) t used := by
  obtain ⟨whole, places, value, rest, hcs, rfl, hwhole, hplaces, hvalue, rfl, hstop⟩ :=
    exists_of_scanNumber h
  have hdigits : ∀ d ∈ whole, isDigit d := fun d hd => by
    rw [hwhole] at hd
    exact List.mem_takeWhile_imp hd
  have hne : whole ≠ [] := by
    obtain ⟨c, hhead, hdigit⟩ := (Option.any_eq_true _ _).1 hc
    obtain ⟨tail, rfl⟩ := List.head?_eq_some_iff.1 hhead
    simp [hwhole, hdigit]
  refine ⟨_, rest, _, ?_, rfl, .number hdigits hne hplaces hvalue, endsWord_iff.1 hstop⟩
  rw [hcs]
  simp [numberChars]

/-- From inside a segment on, a path is scanned to its end and no further. -/
lemma exists_of_scanPath {segments : List String} {current cs : List Char} {used n : ℕ} {t : Token}
    (h : scanPath segments current used cs = ⟨.ok t, n⟩) :
    ∃ tail more rest, cs = tail ++ dotted more ++ rest
      ∧ n = used + (tail ++ dotted more).length ∧ (∀ c ∈ tail, isNameChar c)
      ∧ (∀ s ∈ more, IsName s) ∧ EndsWord rest
      ∧ ∀ first others,
        segments.reverse ++ String.ofList (current.reverse ++ tail) :: more = first :: others →
          t = ofPath first others := by
  fun_induction scanPath segments current used cs with
  | case1 segments current used =>
    cases h
    exact ⟨[], [], [], rfl, rfl, by simp, by simp, by simp [EndsWord], fun first others hpath =>
      ofSegments_eq (by simpa using hpath)⟩
  | case2 segments current used c rest hc ih =>
    obtain ⟨tail, more, behind, rfl, rfl, htail, hmore, hstop, hpath⟩ := ih h
    refine ⟨c :: tail, more, behind, by simp, by simp; omega, ?_, hmore, hstop, ?_⟩
    · exact List.forall_mem_cons.2 ⟨hc, htail⟩
    · simpa using hpath
  | case3 | case5 => cases h
  | case4 segments current used d rest hd _ ih =>
    obtain ⟨tail, more, behind, rfl, rfl, htail, hmore, hstop, hpath⟩ := ih h
    have hname : IsName (String.ofList (d :: tail)) := ⟨d, tail, by simp, hd, htail⟩
    refine ⟨[], String.ofList (d :: tail) :: more, behind, by simp [dotted], ?_, by simp,
      List.forall_mem_cons.2 ⟨hname, hmore⟩, hstop, ?_⟩
    · simp [dotted]
      omega
    · simpa using hpath
  | case6 segments current used c rest hname hdot =>
    cases h
    refine ⟨[], [], c :: rest, rfl, rfl, by simp, by simp, ?_, fun first others hpath =>
      ofSegments_eq (by simpa using hpath)⟩
    rintro d ⟨⟩
    exact ⟨by simpa using hname, hdot⟩

lemma scanned_of_scanPath {c : Char} {rest : List Char} {t : Token} {used : ℕ}
    (hc : isNameStart c) (h : scanPath [] [c] 1 rest = ⟨.ok t, used⟩) :
    Scanned (c :: rest) t used := by
  obtain ⟨tail, more, behind, rfl, rfl, htail, hmore, hstop, hpath⟩ := exists_of_scanPath h
  have hname : IsName (String.ofList (c :: tail)) := ⟨c, tail, by simp, hc, htail⟩
  have hnames := List.forall_mem_cons.2 ⟨hname, hmore⟩
  rw [hpath (String.ofList (c :: tail)) more rfl]
  refine ⟨_, behind, _, ?_, ?_, .path hnames, endsWord_iff.1 hstop⟩
  · simp [pathChars]
  · simp [pathChars]
    omega

lemma scanned_of_scanWord {c : Char} {rest : List Char} {t : Token} {used : ℕ}
    (h : scanWord c rest = ⟨.ok t, used⟩) : Scanned (c :: rest) t used := by
  unfold scanWord at h
  split_ifs at h with hdigit hminus hstart
  · exact scanned_of_scanNumber (by simpa using hdigit) h
  · rw [hminus.1]
    exact scanned_of_scanNumber hminus.2 h
  · exact scanned_of_scanPath hstart h
  · cases h

/-- **What is scanned is a lexeme**, unless nothing is left. -/
theorem exists_lexeme_of_scan {cs : List Char} {t : Token} {used : ℕ}
    (h : scan cs = ⟨.ok t, used⟩) (hcs : cs ≠ []) : Scanned cs t used := by
  have alone {c : Char} {token : Token} (hs : ⟨[c], token, none⟩ ∈ signs) (rest : List Char) :
      Scanned (c :: rest) token 1 :=
    Scanned.of_sign hs (by simp)
  simp only [scan] at h
  split at h
  · exact absurd rfl hcs
  · split at h
    case h_1 | h_2 | h_3 =>
      cases h
      exact alone (by simp [signs]) _
    case h_4 | h_5 => exact scanned_of_scanConnective (by simp [signs]) h
    case h_6 | h_7 => exact scanned_of_scanComparator (by simp [signs]) (by simp) h
    case h_8 | h_9 => exact scanned_of_scanComparator (by simp [signs]) (by simp [signs]) h
    case h_10 => exact scanned_of_scanQuoted (Or.inl rfl) h
    case h_11 => exact scanned_of_scanQuoted (Or.inr rfl) h
    case h_12 => exact scanned_of_scanWord h

end Token

end LinkedTables
