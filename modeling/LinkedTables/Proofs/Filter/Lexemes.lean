import Mathlib
import LinkedTables.Proofs.Filter.Grammar
import LinkedTables.Proofs.Number.NumeralText

/-!
# Lexemes

The lexer against the lexemes it is meant to recognise, in four groups.

**Characters.**  The classes that decide how a lexeme begins do not overlap: what a name or a number
begins with is no punctuation and no blank.

**What is scanned.**  `Token.WellFormed` holds of every token that a scan finds
(`Token.wellFormed_of_scan`): the segments of a column are names, a single segment is no keyword, a
literal number is finite, and a literal text lacks one of the two quotes.

**What a lexeme is scanned as.**  One lemma for each kind of lexeme.  A number or a name ends only
where something else follows that cannot go on with it, and `EndsWord` says so; in the text of a
filter that is a blank, a closing parenthesis or the end, which is a `Boundary`.

**Texts.**  `Lexes cs ts rest` says that the tokens `ts` stand in front of `rest` in the text `cs`.
It leaves positions out, so that pieces of a text can be put together, and
`exists_tokenize_of_lexes` gives them back to a whole text.  `exists_of_tokenize` says what every
text that has tokens is made of.
-/

namespace LinkedTables

open Text

/-! ## Characters -/

/-- The characters that are looked at on their own before numbers and names are tried. -/
def punctuation : List Char := ['(', ')', '~', '&', '|', '=', '!', '<', '>', '\'', '"']

lemma not_mem_punctuation_of_isNameChar {c : Char} (h : isNameChar c) : c ∉ punctuation := by
  have key : punctuation.all (fun d => !isNameChar d) = true := by decide +kernel
  intro hc
  have hnot := List.all_eq_true.1 key c hc
  rw [h] at hnot
  cases hnot

lemma toNat_of_isDigit {c : Char} (h : isDigit c) : 48 ≤ c.toNat ∧ c.toNat ≤ 57 := by
  simp only [isDigit, Bool.and_eq_true, decide_eq_true_eq, Char.le_def, UInt32.le_iff_toNat_le] at h
  exact h

lemma isNameChar_of_isDigit {c : Char} (h : isDigit c) : isNameChar c := by
  have key : ∀ n, 48 ≤ n → n ≤ 57 → numericRanges.contains n = true := by
    intro n h1 h2
    interval_cases n <;> decide
  rcases toNat_of_isDigit h with ⟨h1, h2⟩
  simp [isNameChar, isLetterOrNumber, key _ h1 h2]

/-- A name does not begin with a digit. -/
lemma not_isDigit_of_isNameStart {c : Char} (h : isNameStart c) : isDigit c = false := by
  have key : ∀ n, 48 ≤ n → n ≤ 57 → alphabeticRanges.contains n = false := by
    intro n h1 h2
    interval_cases n <;> decide
  by_contra hc
  rcases toNat_of_isDigit (Bool.of_not_eq_false hc) with ⟨h1, h2⟩
  simp only [isNameStart, isLetter, key _ h1 h2, Bool.false_or, beq_iff_eq] at h
  subst h
  exact absurd h2 (by decide)

lemma exists_range_of_contains {rs : Ranges} {n : ℕ} (h : rs.contains n = true) :
    ∃ r ∈ rs, r.1 ≤ n ∧ n ≤ r.2 := by
  induction rs with
  | nil => cases h
  | cons r rest ih =>
    simp only [Ranges.contains] at h
    split_ifs at h with hlow
    simp only [Bool.or_eq_true, decide_eq_true_eq] at h
    rcases h with h | h
    · exact ⟨r, by simp, by omega, h⟩
    · rcases ih h with ⟨r', hr', hn⟩
      exact ⟨r', by simp [hr'], hn⟩

/-- A blank is no part of a name. -/
lemma not_isNameChar_of_isBlank {c : Char} (h : isBlank c) : isNameChar c = false := by
  have key : (blankRanges.flatMap fun r => List.range' r.1 (r.2 + 1 - r.1)).all (fun n =>
      !(alphabeticRanges.contains n || numericRanges.contains n) && n != '_'.toNat) = true := by
    decide +kernel
  rcases exists_range_of_contains h with ⟨r, hr, h1, h2⟩
  have hn := List.all_eq_true.1 key c.toNat
    (List.mem_flatMap.2 ⟨r, hr, List.mem_range'_1.2 ⟨h1, by omega⟩⟩)
  simp only [Bool.and_eq_true, Bool.not_eq_true', bne_iff_ne] at hn
  have hc : (c == '_') = false := beq_eq_false_iff_ne.2 fun heq => hn.2 (by rw [heq])
  simpa [isNameChar, isLetterOrNumber, isLetter, hc] using hn.1

/-! ## What is scanned -/

/-- A letter or an underscore, and then letters, numbers and underscores. -/
def IsName (s : String) : Prop :=
  ∃ c rest, s.toList = c :: rest ∧ isNameStart c ∧ ∀ d ∈ rest, isNameChar d

lemma isName_iff {s : String} :
    IsName s ↔ (s.toList.head?.any isNameStart && s.toList.tail.all isNameChar) = true := by
  cases hs : s.toList with
  | nil => simp [IsName, hs]
  | cons c rest => simp [IsName, hs]

instance : DecidablePred IsName := fun _ => decidable_of_iff _ isName_iff.symm

lemma IsName.extend {cs : List Char} {c : Char} (h : IsName (String.ofList cs))
    (hc : isNameChar c) : IsName (String.ofList (cs ++ [c])) := by
  rcases h with ⟨d, rest, hcs, hd, hrest⟩
  rw [String.toList_ofList] at hcs
  refine ⟨d, rest ++ [c], by simp [hcs], hd, fun x hx => ?_⟩
  rcases List.mem_append.1 hx with hx | hx
  · exact hrest x hx
  · rw [List.mem_singleton.1 hx]
    exact hc

lemma IsName.single {c : Char} (hc : isNameStart c) : IsName (String.ofList [c]) :=
  ⟨c, [], by simp, hc, by simp⟩

/-- The cells that can be written as a literal: there are no escapes in a text, and no digits for an
infinite number. -/
def Cell.Writable : Cell → Prop
  | .float x => x.isFinite = true
  | .text s => '\'' ∉ s.toList ∨ '"' ∉ s.toList
  | _ => True

namespace Token

/-- The tokens that a scan can find. -/
def WellFormed : Token → Prop
  | literal value => value.Writable
  | column first rest => (∀ s ∈ first :: rest, IsName s) ∧ (rest = [] → keyword? first = none)
  | _ => True

lemma writable_of_numberCell? {negative : Bool} {whole places : List Char} {value : Cell}
    (h : numberCell? negative whole places = some value) : value.Writable := by
  simp only [numberCell?] at h
  split at h
  · unfold integerCell? at h
    dsimp only at h
    split_ifs at h <;> cases h <;> trivial
  · unfold floatCell? at h
    dsimp only at h
    split_ifs at h with hfinite
    cases h
    exact hfinite

lemma writable_of_keyword? {name : String} {value : Cell} (h : keyword? name = some value) :
    value.Writable := by
  simp only [keyword?] at h
  split at h <;> cases h <;> trivial

lemma wellFormed_of_scanNumber {negative : Bool} {cs : List Char} {t : Token}
    (h : (scanNumber negative cs).outcome = .ok t) : t.WellFormed := by
  unfold scanNumber at h
  dsimp only at h
  split at h
  · cases h
  · split at h
    · rename_i value hvalue
      cases h
      exact writable_of_numberCell? hvalue
    · cases h

lemma wellFormed_of_scanQuoted {quote : Char} {cs : List Char} {t : Token}
    (hquote : quote = '\'' ∨ quote = '"') (h : (scanQuoted quote cs).outcome = .ok t) :
    t.WellFormed := by
  have hcontent : quote ∉ cs.takeWhile (· != quote) := fun hmem => by
    simpa using List.mem_takeWhile_imp hmem
  unfold scanQuoted at h
  dsimp only at h
  split at h
  · cases h
  · cases h
    simp only [WellFormed, Cell.Writable, String.toList_ofList]
    rcases hquote with rfl | rfl
    · exact Or.inl hcontent
    · exact Or.inr hcontent

/-- The segments gathered from the last one back are the path in order. -/
lemma ofSegments_eq {last first : String} {before rest : List String}
    (h : before.reverse ++ [last] = first :: rest) :
    ofSegments last before = ofPath first rest := by
  have key : ∀ (before : List String) (path : String × List String),
      let whole := before.foldl (fun path segment => (segment, path.1 :: path.2)) path
      whole.1 :: whole.2 = before.reverse ++ path.1 :: path.2 := by
    intro before
    induction before with
    | nil => exact fun path => rfl
    | cons segment before ih => exact fun path => by simpa using ih (segment, path.1 :: path.2)
  have hpath := key before (last, [])
  dsimp only at hpath
  rw [h] at hpath
  unfold ofSegments
  dsimp only
  rw [List.head_eq_of_cons_eq hpath, List.tail_eq_of_cons_eq hpath]

lemma wellFormed_ofPath {first : String} {rest : List String}
    (h : ∀ s ∈ first :: rest, IsName s) : (ofPath first rest).WellFormed := by
  cases rest with
  | cons second rest => exact ⟨h, by simp⟩
  | nil =>
    simp only [ofPath]
    cases hkey : keyword? first with
    | none => exact ⟨h, fun _ => hkey⟩
    | some value => exact writable_of_keyword? hkey

lemma wellFormed_ofSegments {last : String} {before : List String}
    (hlast : IsName last) (hbefore : ∀ s ∈ before, IsName s) :
    (ofSegments last before).WellFormed := by
  obtain ⟨first, rest, h⟩ := List.exists_cons_of_ne_nil
    (show before.reverse ++ [last] ≠ [] by simp)
  rw [ofSegments_eq h]
  refine wellFormed_ofPath fun s hs => ?_
  rw [← h] at hs
  rcases List.mem_append.1 hs with hs | hs
  · exact hbefore s (List.mem_reverse.1 hs)
  · rw [List.mem_singleton.1 hs]
    exact hlast

lemma wellFormed_of_scanPath {segments : List String} {current : List Char} {used : ℕ}
    {cs : List Char} {t : Token} (hcurrent : IsName (String.ofList current.reverse))
    (hsegments : ∀ s ∈ segments, IsName s)
    (h : (scanPath segments current used cs).outcome = .ok t) : t.WellFormed := by
  fun_induction scanPath segments current used cs with
  | case1 | case6 =>
    cases h
    exact wellFormed_ofSegments hcurrent hsegments
  | case2 segments current used c rest hc ih =>
    refine ih ?_ hsegments h
    rw [List.reverse_cons]
    exact hcurrent.extend hc
  | case3 | case5 => cases h
  | case4 segments current used d rest hd _ ih =>
    refine ih (IsName.single hd) (fun s hs => ?_) h
    rcases List.mem_cons.1 hs with rfl | hs
    · exact hcurrent
    · exact hsegments s hs

lemma wellFormed_of_scanWord {c : Char} {rest : List Char} {t : Token}
    (h : (scanWord c rest).outcome = .ok t) : t.WellFormed := by
  simp only [scanWord] at h
  split_ifs at h with _ _ hstart
  · exact wellFormed_of_scanNumber h
  · exact wellFormed_of_scanNumber h
  · have hname : IsName (String.ofList [c].reverse) := IsName.single hstart
    exact wellFormed_of_scanPath hname (by simp) h

lemma wellFormed_of_scanConnective {c : Char} {token t : Token} {rest : List Char}
    (htoken : token.WellFormed) (h : (scanConnective c token rest).outcome = .ok t) :
    t.WellFormed := by
  simp only [scanConnective] at h
  split_ifs at h
  cases h
  exact htoken

lemma wellFormed_of_scanComparator {op : Comparator} {alone : Except (ℕ × SyntaxFault) Token}
    {t : Token} {rest : List Char} (halone : ∀ t, alone = .ok t → t.WellFormed)
    (h : (scanComparator op alone rest).outcome = .ok t) : t.WellFormed := by
  simp only [scanComparator] at h
  split_ifs at h
  · cases h
    trivial
  · exact halone t h

/-- **Whatever a scan finds is well-formed.** -/
theorem wellFormed_of_scan {cs : List Char} {t : Token} (h : (scan cs).outcome = .ok t) :
    t.WellFormed := by
  simp only [scan] at h
  split at h
  · cases h
    trivial
  · split at h
    case h_4 => exact wellFormed_of_scanConnective (show WellFormed and from trivial) h
    case h_5 => exact wellFormed_of_scanConnective (show WellFormed or from trivial) h
    case h_6 => exact wellFormed_of_scanComparator (by simp) h
    case h_7 => exact wellFormed_of_scanComparator (by simp) h
    case h_8 => exact wellFormed_of_scanComparator (by rintro t ⟨⟩; trivial) h
    case h_9 => exact wellFormed_of_scanComparator (by rintro t ⟨⟩; trivial) h
    case h_10 => exact wellFormed_of_scanQuoted (Or.inl rfl) h
    case h_11 => exact wellFormed_of_scanQuoted (Or.inr rfl) h
    case h_12 => exact wellFormed_of_scanWord h
    -- parentheses and the negation sign
    all_goals
      cases h
      trivial

end Token

/-! ## What a lexeme is scanned as -/

/-- What may stand behind a number or a name: nothing that would go on with it. -/
def EndsWord (rest : List Char) : Prop := ∀ c ∈ rest.head?, isNameChar c = false ∧ c ≠ '.'

lemma EndsWord.not_isDigit {rest : List Char} (h : EndsWord rest) :
    ∀ c ∈ rest.head?, isDigit c = false := by
  intro c hc
  by_contra hdigit
  have hname := isNameChar_of_isDigit (Bool.of_not_eq_false hdigit)
  rw [(h c hc).1] at hname
  cases hname

/-- What stands behind a literal or a column in the text of a filter. -/
def Boundary (rest : List Char) : Prop := ∀ c ∈ rest.head?, c = ' ' ∨ c = ')'

/-- No number or name goes on over a boundary. -/
lemma Boundary.endsWord {rest : List Char} (h : Boundary rest) : EndsWord rest := by
  intro c hc
  rcases h c hc with rfl | rfl <;> decide

namespace Token

lemma scan_cons {c : Char} {cs : List Char} (h : c ∉ punctuation) :
    scan (c :: cs) = scanWord c cs := by
  simp only [scan]
  split <;> simp_all [punctuation]

/-- A scan that finds something does not begin with a blank. -/
lemma not_isBlank_of_scan {c : Char} {cs : List Char} {t : Token} {used : ℕ}
    (h : scan (c :: cs) = ⟨.ok t, used⟩) : isBlank c = false := by
  by_contra hc
  have hblank := Bool.of_not_eq_false hc
  have hname := not_isNameChar_of_isBlank hblank
  have hpunctuation : c ∉ punctuation := by
    have key : punctuation.all (fun d => !isBlank d) = true := by decide
    intro hmem
    have hnot := List.all_eq_true.1 key c hmem
    rw [hblank] at hnot
    cases hnot
  rw [scan_cons hpunctuation, scanWord,
    if_neg fun hd => by simp [isNameChar_of_isDigit hd] at hname,
    if_neg fun hminus => by rw [hminus.1] at hblank; exact absurd hblank (by decide),
    if_neg fun hs => by simp [isNameChar_of_isNameStart hs] at hname] at h
  cases h

/-! ### Numbers -/

lemma takeWhile_isDigit {ds rest : List Char} (hds : ∀ d ∈ ds, isDigit d)
    (hrest : ∀ c ∈ rest.head?, isDigit c = false) : (ds ++ rest).takeWhile isDigit = ds := by
  rw [List.takeWhile_append_of_pos hds]
  cases rest with
  | nil => simp
  | cons c rest => simp [hrest c (by simp)]

lemma scanNumber_eq {negative : Bool} {whole places rest : List Char} {value : Cell}
    (hwhole : ∀ d ∈ whole, isDigit d) (hplaces : ∀ d ∈ places, isDigit d)
    (hvalue : numberCell? negative whole places = some value) (hrest : EndsWord rest) :
    scanNumber negative (numberChars false whole places ++ rest)
      = ⟨.ok (.literal value), (numberChars negative whole places).length⟩ := by
  -- the point or what follows the number ends the digits before it
  have htake : (numberChars false whole places ++ rest).takeWhile isDigit = whole := by
    simp only [numberChars]
    cases places with
    | nil => simpa using takeWhile_isDigit hwhole hrest.not_isDigit
    | cons p places =>
      have hpoint : ∀ c ∈ ('.' :: p :: (places ++ rest)).head?, isDigit c = false := by
        rintro c ⟨⟩
        decide
      simpa using takeWhile_isDigit hwhole hpoint
  have hof : placesOf ((numberChars false whole places ++ rest).drop whole.length) = places := by
    simp only [numberChars]
    cases places with
    | nil =>
      cases rest with
      | nil => simp [placesOf]
      | cons c rest =>
        have hc := (hrest c (by simp)).2
        simp [placesOf, hc]
    | cons p places =>
      simpa [placesOf] using takeWhile_isDigit hplaces hrest.not_isDigit
  have hnext : (rest.head?.any fun c => isNameChar c || c == '.') = false := by
    cases rest with
    | nil => rfl
    | cons c rest =>
      rcases hrest c (by simp) with ⟨hname, hdot⟩
      simp [hname, hdot]
  unfold scanNumber
  dsimp only
  rw [htake, hof, List.drop_left, hnext, hvalue]
  rfl

lemma scan_number {negative : Bool} {whole places rest : List Char} {value : Cell}
    (hwhole : ∀ d ∈ whole, isDigit d) (hne : whole ≠ []) (hplaces : ∀ d ∈ places, isDigit d)
    (hvalue : numberCell? negative whole places = some value) (hrest : EndsWord rest) :
    scan (numberChars negative whole places ++ rest)
      = ⟨.ok (.literal value), (numberChars negative whole places).length⟩ := by
  have hscan := scanNumber_eq hwhole hplaces hvalue hrest
  rcases List.exists_cons_of_ne_nil hne with ⟨d, ds, rfl⟩
  have hd : isDigit d := hwhole d (by simp)
  cases negative with
  | false =>
    rw [show numberChars false (d :: ds) places ++ rest
      = d :: (ds ++ (if places.isEmpty then [] else '.' :: places) ++ rest) by
        simp [numberChars]] at hscan ⊢
    rw [scan_cons (not_mem_punctuation_of_isNameChar (isNameChar_of_isDigit hd)), scanWord,
      if_pos hd]
    exact hscan
  | true =>
    rw [show numberChars true (d :: ds) places ++ rest
      = '-' :: (numberChars false (d :: ds) places ++ rest) by simp [numberChars]]
    rw [scan_cons (by decide), scanWord, if_neg (by decide),
      if_pos ⟨rfl, by simpa [numberChars] using hd⟩]
    exact hscan

/-! ### Paths and keywords -/

/-- The characters of a path behind its first segment. -/
def dotted (segments : List String) : List Char := segments.flatMap fun s => '.' :: s.toList

/-- The characters of a path. -/
def pathChars (first : String) (rest : List String) : List Char := first.toList ++ dotted rest

lemma toList_intercalate_dot (first : String) (rest : List String) :
    (".".intercalate (first :: rest)).toList = pathChars first rest := by
  induction rest generalizing first with
  | nil => simp [pathChars, dotted]
  | cons second rest ih =>
    rw [String.intercalate_cons_of_ne_nil (by simp), String.toList_append, ih]
    simp [pathChars, dotted]

lemma scanPath_append {segments : List String} {current cs rest : List Char} {used : ℕ}
    (hcs : ∀ c ∈ cs, isNameChar c) :
    scanPath segments current used (cs ++ rest)
      = scanPath segments (cs.reverse ++ current) (used + cs.length) rest := by
  induction cs generalizing current used with
  | nil => rfl
  | cons c cs ih =>
    rw [List.cons_append, scanPath.eq_def]
    dsimp only
    rw [if_pos (hcs c (by simp)), ih fun d hd => hcs d (List.mem_cons_of_mem c hd)]
    simp [Nat.add_assoc, Nat.add_comm 1]

lemma scanPath_of_endsWord {segments : List String} {current rest : List Char} {used : ℕ}
    (hrest : EndsWord rest) :
    scanPath segments current used rest
      = ⟨.ok (ofSegments (String.ofList current.reverse) segments), used⟩ := by
  cases rest with
  | nil => rw [scanPath]
  | cons c rest =>
    rcases hrest c (by simp) with ⟨hname, hdot⟩
    rw [scanPath.eq_def]
    dsimp only
    rw [if_neg (by simp [hname]), if_neg hdot]

/-- From inside a segment on, a path is scanned to its end. -/
lemma scanPath_dotted {segments more : List String} {current rest : List Char} {used : ℕ}
    {first : String} {others : List String} (hmore : ∀ s ∈ more, IsName s) (hrest : EndsWord rest)
    (hpath : segments.reverse ++ String.ofList current.reverse :: more = first :: others) :
    scanPath segments current used (dotted more ++ rest)
      = ⟨.ok (ofPath first others), used + (dotted more).length⟩ := by
  induction more generalizing segments current used with
  | nil =>
    rw [show dotted [] ++ rest = rest from rfl, scanPath_of_endsWord hrest, ofSegments_eq hpath]
    rfl
  | cons s more ih =>
    rcases hmore s (by simp) with ⟨c, cs, hs, hc, hcs⟩
    have hof : String.ofList (cs.reverse ++ [c]).reverse = s := by
      rw [List.reverse_append, List.reverse_reverse, List.reverse_singleton, List.singleton_append,
        ← hs, String.ofList_toList]
    rw [show dotted (s :: more) ++ rest = '.' :: c :: (cs ++ (dotted more ++ rest)) by
      simp [dotted, hs]]
    have hpath' : (String.ofList current.reverse :: segments).reverse
        ++ String.ofList (cs.reverse ++ [c]).reverse :: more = first :: others := by
      rw [hof]
      simpa using hpath
    rw [scanPath, if_neg (by decide), if_pos rfl, if_pos hc, scanPath_append hcs,
      ih (fun t ht => hmore t (by simp [ht])) hpath']
    congr 1
    simp only [dotted, List.flatMap_cons, hs, List.length_append, List.length_cons]
    omega

/-- A path is scanned as a column, or as a keyword if it is one. -/
lemma scan_path {first : String} {others : List String} {rest : List Char}
    (hnames : ∀ s ∈ first :: others, IsName s) (hrest : EndsWord rest) :
    scan (pathChars first others ++ rest)
      = ⟨.ok (ofPath first others), (pathChars first others).length⟩ := by
  rcases hnames first (by simp) with ⟨c, cs, hs, hc, hcs⟩
  have hname := isNameChar_of_isNameStart hc
  have hof : String.ofList (cs.reverse ++ [c]).reverse = first := by
    rw [List.reverse_append, List.reverse_reverse, List.reverse_singleton, List.singleton_append,
      ← hs, String.ofList_toList]
  have hpath : [].reverse ++ String.ofList (cs.reverse ++ [c]).reverse :: others
      = first :: others := by
    rw [hof]
    rfl
  rw [show pathChars first others ++ rest = c :: (cs ++ (dotted others ++ rest)) by
    simp [pathChars, hs]]
  rw [scan_cons (not_mem_punctuation_of_isNameChar hname), scanWord,
    if_neg (by simp [not_isDigit_of_isNameStart hc]),
    if_neg fun h => absurd hname (by rw [h.1]; decide), if_pos hc, scanPath_append hcs,
    scanPath_dotted (fun s hs => hnames s (List.mem_cons_of_mem first hs)) hrest hpath]
  congr 1
  simp only [pathChars, hs, List.length_append, List.length_cons]
  omega

/-- A name that is a keyword is scanned as its literal. -/
lemma scan_keyword {name : String} {value : Cell} {rest : List Char} (hname : IsName name)
    (hvalue : keyword? name = some value) (hrest : Boundary rest) :
    scan (name.toList ++ rest) = ⟨.ok (.literal value), name.toList.length⟩ := by
  have hnames : ∀ s ∈ [name], IsName s := by simpa using hname
  have h := scan_path hnames hrest.endsWord
  rwa [pathChars, show dotted [] = [] from rfl, List.append_nil, ofPath, hvalue] at h

/-! ### Literals -/

lemma quoteFor_not_mem {s : List Char} (h : '\'' ∉ s ∨ '"' ∉ s) : Cell.quoteFor s ∉ s := by
  simp only [Cell.quoteFor]
  split_ifs with hs
  · exact h.resolve_left (not_not_intro hs)
  · exact hs

lemma scanQuoted_eq {quote : Char} {content : List Char} (rest : List Char)
    (h : quote ∉ content) :
    scanQuoted quote (content ++ quote :: rest)
      = ⟨.ok (.literal (.text (String.ofList content))), content.length + 2⟩ := by
  have htake : (content ++ quote :: rest).takeWhile (· != quote) = content := by
    rw [List.takeWhile_append_of_pos fun c hc => by
      simpa using fun heq : c = quote => h (heq ▸ hc)]
    simp
  unfold scanQuoted
  dsimp only
  rw [htake, if_neg (by simp)]

lemma scan_text {s : String} {rest : List Char} (h : '\'' ∉ s.toList ∨ '"' ∉ s.toList) :
    scan ((Cell.text s).literalChars ++ rest)
      = ⟨.ok (.literal (.text s)), (Cell.text s).literalChars.length⟩ := by
  have hscan := scanQuoted_eq rest (quoteFor_not_mem h)
  rw [String.ofList_toList] at hscan
  rw [show (Cell.text s).literalChars ++ rest = Cell.quoteFor s.toList ::
    (s.toList ++ Cell.quoteFor s.toList :: rest) by simp [Cell.literalChars]]
  rw [show (Cell.text s).literalChars.length = s.toList.length + 2 by simp [Cell.literalChars]]
  have hquote : Cell.quoteFor s.toList = '\'' ∨ Cell.quoteFor s.toList = '"' := by
    simp only [Cell.quoteFor]
    split_ifs <;> simp
  rcases hquote with hquote | hquote <;>
  · rw [hquote] at hscan ⊢
    exact hscan

/-- **A literal is scanned as itself.** -/
theorem scan_literal {value : Cell} {rest : List Char} (hvalue : value.Writable)
    (hrest : Boundary rest) :
    scan (value.literalChars ++ rest) = ⟨.ok (.literal value), value.literalChars.length⟩ := by
  cases value with
  | integer n =>
    rw [show (Cell.integer n).literalChars
        = numberChars (decide (n.toInt < 0)) (Decimal.digitsOf n.toInt.natAbs) [] by
      by_cases h : n.toInt < 0 <;> simp [Cell.literalChars, Cell.intChars, numberChars, h]]
    exact scan_number (Decimal.all_isDigit_digitsOf _) (Decimal.digitsOf_ne_nil _) (by simp)
      (integerCell?_toInt n) hrest.endsWord
  | float x =>
    obtain ⟨whole, places, hchars, hne, hwhole, hne', hplaces, hcell⟩ :=
      Binary64.exists_numeral_literalChars hvalue
    rw [show (Cell.float x).literalChars = x.literalChars from rfl, hchars]
    exact scan_number hwhole hne hplaces (by simpa [numberCell?, hne'] using hcell) hrest.endsWord
  | text s => exact scan_text hvalue
  | boolean b =>
    cases b with
    | true =>
      have hname : IsName "true" := by decide
      exact scan_keyword hname (by cbv) hrest
    | false =>
      have hname : IsName "false" := by decide
      exact scan_keyword hname (by cbv) hrest
  | null =>
    have hname : IsName "None" := by decide
    exact scan_keyword hname (by cbv) hrest

end Token

/-! ## Texts -/

/-- `Lexes cs ts rest`: the text `cs` is made of the tokens `ts`, with blanks in front of them or
not, and then of `rest`. -/
inductive Lexes : List Char → List Token → List Char → Prop
  | done (rest : List Char) : Lexes rest [] rest
  | token {cs rest : List Char} {t : Token} {used : ℕ} {ts : List Token} :
      Token.scan (cs.dropWhile isBlank) = ⟨.ok t, used⟩ → t ≠ .endOfInput →
      Lexes ((cs.dropWhile isBlank).drop used) ts rest → Lexes cs (t :: ts) rest

namespace Lexes

variable {cs mid rest : List Char} {t : Token} {ts us : List Token}

lemma append (h : Lexes cs ts mid) (h' : Lexes mid us rest) : Lexes cs (ts ++ us) rest := by
  induction h with
  | done => exact h'
  | token hscan ht _ ih => exact .token hscan ht (ih h')

/-- Blanks in front of a token do not matter. -/
lemma blank {c : Char} (hc : isBlank c = true) (h : Lexes cs (t :: ts) rest) :
    Lexes (c :: cs) (t :: ts) rest := by
  have hdrop : (c :: cs).dropWhile isBlank = cs.dropWhile isBlank := by
    rw [List.dropWhile_cons, if_pos hc]
  cases h with
  | token hscan ht htail =>
    rw [← hdrop] at hscan htail
    exact .token hscan ht htail

/-- What is scanned is a token of the text. -/
lemma lexeme (hscan : Token.scan (cs ++ rest) = ⟨.ok t, cs.length⟩) (ht : t ≠ .endOfInput) :
    Lexes (cs ++ rest) [t] rest := by
  have hdrop : (cs ++ rest).dropWhile isBlank = cs ++ rest := by
    cases hall : cs ++ rest with
    | nil => rfl
    | cons c tail =>
      rw [hall] at hscan
      rw [List.dropWhile_cons, if_neg (by simp [Token.not_isBlank_of_scan hscan])]
  refine .token (by rw [hdrop]; exact hscan) ht ?_
  rw [hdrop, List.drop_left]
  exact .done rest

end Lexes

/-! ### Tokenizing -/

lemma Cursor.rest_skipBlanks (c : Cursor) : c.skipBlanks.rest = c.rest.dropWhile isBlank := by
  have h : c.rest = c.rest.takeWhile isBlank ++ c.rest.dropWhile isBlank :=
    List.takeWhile_append_dropWhile.symm
  calc c.skipBlanks.rest = c.rest.drop (c.rest.takeWhile isBlank).length := rfl
    _ = (c.rest.takeWhile isBlank ++ c.rest.dropWhile isBlank).drop
          (c.rest.takeWhile isBlank).length := by rw [← h]
    _ = c.rest.dropWhile isBlank := List.drop_left

lemma Cursor.next_of_scan {c : Cursor} {t : Token} {used : ℕ}
    (h : Token.scan (c.rest.dropWhile isBlank) = ⟨.ok t, used⟩) :
    ∃ p p', c.next = (.ok ⟨t, p⟩, ⟨p', (c.rest.dropWhile isBlank).drop used⟩) := by
  refine ⟨c.skipBlanks.position, c.skipBlanks.position + used, ?_⟩
  unfold Cursor.next
  dsimp only
  rw [Cursor.rest_skipBlanks, h]
  simp only [advance, rest_skipBlanks]

lemma Cursor.wellFormed_of_next {c : Cursor} {t : PlacedToken} (h : c.next.1 = .ok t) :
    t.token.WellFormed := by
  rw [Cursor.next] at h
  dsimp only at h
  split at h
  · rename_i token hscan
    cases h
    exact Token.wellFormed_of_scan hscan
  · cases h

lemma tokensFrom_of_next {found : List PlacedToken} {c : Cursor} {t : PlacedToken}
    (h : c.next.1 = .ok t) (ht : t.token ≠ .endOfInput) :
    tokensFrom found c = tokensFrom (t :: found) c.next.2 := by
  rw [tokensFrom]
  split
  · rename_i e he
    rw [h] at he
    cases he
  · rename_i t' ht'
    rw [h] at ht'
    cases ht'
    rw [dif_neg ht]

lemma tokensFrom_of_end {found : List PlacedToken} {c : Cursor} {t : PlacedToken}
    (h : c.next.1 = .ok t) (ht : t.token = .endOfInput) :
    tokensFrom found c = .ok (TokenStream.prepend found.reverse ⟨t, []⟩) := by
  rw [tokensFrom, TokenStream.prepend, List.foldr_reverse]
  split
  · rename_i e he
    rw [h] at he
    cases he
  · rename_i t' ht'
    rw [h] at ht'
    cases ht'
    rw [dif_pos ht]

lemma exists_tokensFrom_of_lexes {cs rest : List Char} {ts : List Token} (h : Lexes cs ts rest) :
    ∀ (found : List PlacedToken) (p : ℕ), ∃ (placed : List PlacedToken) (p' : ℕ),
      placed.map PlacedToken.token = ts
      ∧ tokensFrom found ⟨p, cs⟩ = tokensFrom (placed.reverse ++ found) ⟨p', rest⟩ := by
  induction h with
  | done rest => exact fun found p => ⟨[], p, rfl, rfl⟩
  | @token cs rest t used ts hscan ht _ ih =>
    intro found p
    rcases Cursor.next_of_scan (c := ⟨p, cs⟩) hscan with ⟨q, p₁, hnext⟩
    rcases ih (⟨t, q⟩ :: found) p₁ with ⟨placed, p', hplaced, htokens⟩
    refine ⟨⟨t, q⟩ :: placed, p', by rw [List.map_cons, hplaced], ?_⟩
    rw [tokensFrom_of_next (by rw [hnext]) ht, hnext, List.reverse_cons, List.append_assoc]
    exact htokens

/-- **The tokens of a text** are those it is made of. -/
theorem exists_tokenize_of_lexes {cs : List Char} {ts : List Token} (h : Lexes cs ts []) :
    ∃ (placed : List PlacedToken) (p : ℕ), placed.map PlacedToken.token = ts
      ∧ tokenize cs = .ok (TokenStream.prepend placed ⟨⟨.endOfInput, p⟩, []⟩) := by
  rcases exists_tokensFrom_of_lexes h [] 0 with ⟨placed, p, hplaced, htokens⟩
  rcases Cursor.next_of_scan (c := ⟨p, []⟩) Token.scan_nil with ⟨q, p', hnext⟩
  refine ⟨placed, q, hplaced, ?_⟩
  rw [tokenize, Cursor.start, htokens, tokensFrom_of_end (by rw [hnext]) rfl]
  simp

lemma exists_of_tokensFrom {found : List PlacedToken} {c : Cursor} {s : TokenStream}
    (h : tokensFrom found c = .ok s) :
    ∃ placed p, s = TokenStream.prepend (found.reverse ++ placed) ⟨⟨.endOfInput, p⟩, []⟩
      ∧ ∀ t ∈ placed, t.token ≠ .endOfInput ∧ t.token.WellFormed := by
  fun_induction tokensFrom found c with
  | case1 => cases h
  | case2 found c t hnext hend =>
    cases h
    refine ⟨[], t.position, ?_, by simp⟩
    rw [List.append_nil, TokenStream.prepend, List.foldr_reverse, ← hend]
  | case3 found c t hnext hend _ ih =>
    rcases ih h with ⟨placed, p, hs, hplaced⟩
    refine ⟨t :: placed, p, by simpa using hs, fun u hu => ?_⟩
    rcases List.mem_cons.1 hu with rfl | hu
    · exact ⟨hend, Cursor.wellFormed_of_next hnext⟩
    · exact hplaced u hu

/-- **Every token of a text is well-formed**, and the end of the input stands behind them and
nowhere else. -/
theorem exists_of_tokenize {cs : List Char} {s : TokenStream} (h : tokenize cs = .ok s) :
    ∃ placed p, s = TokenStream.prepend placed ⟨⟨.endOfInput, p⟩, []⟩
      ∧ ∀ t ∈ placed, t.token ≠ .endOfInput ∧ t.token.WellFormed := by
  simpa using exists_of_tokensFrom h

end LinkedTables
