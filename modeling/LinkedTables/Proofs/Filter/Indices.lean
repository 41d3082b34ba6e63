import Mathlib
import LinkedTables.Proofs.Stateful
import LinkedTables.Proofs.Filter.LexicalGrammar

/-!
# Scanning by positions

`Cursor.next` takes a text apart from its front, and no position of it can be wrong.  A scanner that
keeps the whole text and counts a position up has to see to that itself: it must not go on behind
the end of the text, and where it takes the characters from one position to another, the first must
not be behind the second, and the second not behind the end.

* **The scanner.**  `Scanner.next` is such a scanner.  It steps from character to character.  It
  breaks where a loop has used up the rounds that it is given as fuel, where it goes on and no
  character is left, and where it takes a slice that the text does not have.
* **It is `Cursor.next`.**  From every position of a text it has a result if the fuel is more than
  the characters, and this is the token or fault that `Cursor.next` finds, and the position at which
  that ends (`Scanner.runFrom_next`).  So its loops end, and it never leaves the text.
* **Within the text.**  A scan takes no more characters than there are (`Token.used_scan_le`), so a
  cursor within a text stays within it and does not go back (`Cursor.Within.next`).
-/

namespace LinkedTables

open Text Token

/-! ## The scanner -/

/-- A computation that moves a position of a text. -/
abbrev Scanner (α : Type) := Machine ℕ SyntaxError α

namespace Scanner

open Machine

variable (text : List Char)

/-- The character some places ahead, if there is one. -/
def peek (ahead : ℕ) : Scanner (Option Char) := do
  let i ← get
  pure text[i + ahead]?

/-- Go on by one character; there must be one. -/
def advance : Scanner Unit := do
  let i ← get
  if i < text.length then modify (· + 1) else broken

/-- The characters from a position to the current one. -/
def slice (start : ℕ) : Scanner (List Char) := do
  let stop ← get
  if start ≤ stop ∧ stop ≤ text.length then
    pure ((text.drop start).take (stop - start))
  else
    broken

/-- Go on as long as the characters are of a kind. -/
def skipWhile (p : Char → Bool) : ℕ → Scanner Unit
  | 0 => broken
  | fuel + 1 => do
    let c ← peek text 0
    if c.any p then do
      advance text
      skipWhile p fuel
    else
      pure ()

/-- Go on behind a minus sign, if one stands here. -/
def skipSign : Scanner Unit := do
  let c ← peek text 0
  if c = some '-' then advance text else pure ()

/-- Go on behind the digits of a number and the point in it, which has a digit behind it; `pointed`
says whether there has been a point, and so does the answer. -/
def skipDigits (pointed : Bool) : ℕ → Scanner Bool
  | 0 => broken
  | fuel + 1 => do
    let c ← peek text 0
    let d ← peek text 1
    if c.any isDigit then do
      advance text
      skipDigits pointed fuel
    else if c = some '.' ∧ pointed = false ∧ d.any isDigit then do
      advance text
      skipDigits true fuel
    else
      pure pointed

/-- The cell of a number as it is written; `pointed` says whether it has places. -/
def numeral? (pointed : Bool) (written : List Char) : Option Cell :=
  let negative := written.head? = some '-'
  let digits := if negative then written.tail else written
  let whole := digits.takeWhile isDigit
  if pointed then floatCell? negative whole (placesOf (digits.drop whole.length))
  else integerCell? negative whole

/-- Read a number. -/
def number (fuel : ℕ) : Scanner Token := do
  let start ← get
  skipSign text
  let pointed ← skipDigits text false fuel
  let c ← peek text 0
  if c.any fun c => isNameChar c || c == '.' then
    throw ⟨start, .malformedNumber⟩
  else do
    let written ← slice text start
    match numeral? pointed written with
    | some value => pure (.literal value)
    | none => throw ⟨start, .numberOutOfRange (String.ofList written)⟩

/-- Read a text in quotes. -/
def quoted (quote : Char) (fuel : ℕ) : Scanner Token := do
  let start ← get
  advance text
  let inside ← get
  skipWhile text (· != quote) fuel
  let c ← peek text 0
  if c = none then
    throw ⟨start, .unterminatedText⟩
  else do
    let content ← slice text inside
    advance text
    pure (.literal (.text (String.ofList content)))

/-- Read a name. -/
def name (fuel : ℕ) : Scanner String := do
  let start ← get
  skipWhile text isNameChar fuel
  let cs ← slice text start
  pure (String.ofList cs)

/-- Read the segments of a path behind its last one so far; `before` are those in front of that, the
last one first. -/
def segments (last : String) (before : List String) : ℕ → Scanner Token
  | 0 => broken
  | fuel + 1 => do
    let c ← peek text 0
    if c = some '.' then do
      let point ← get
      advance text
      let d ← peek text 0
      if d.any isNameStart then do
        let segment ← name text fuel
        segments segment (last :: before) fuel
      else
        throw ⟨point + 1, .nameExpected⟩
    else
      pure (ofSegments last before)

/-- Read a path or a keyword. -/
def path (fuel : ℕ) : Scanner Token := do
  let first ← name text fuel
  segments text first [] fuel

/-- Read an operator that is complete with the equality sign and, perhaps, without it. -/
def comparator (withEquals : Comparator) (alone : Except SyntaxFault Token) : Scanner Token := do
  let start ← get
  advance text
  let c ← peek text 0
  if c = some '=' then do
    advance text
    pure (.comparator withEquals)
  else
    match alone with
    | .ok t => pure t
    | .error fault => throw ⟨start, fault⟩

/-- Read a connective, which must not be doubled. -/
def connective (c : Char) (t : Token) : Scanner Token := do
  let start ← get
  advance text
  let d ← peek text 0
  if d = some c then throw ⟨start, .doubledConnective c⟩ else pure t

/-- Read a sign of one character. -/
def sign (t : Token) : Scanner Token := do
  advance text
  pure t

/-- Read a number, a path or a keyword, which begins with `c`. -/
def word (c : Char) (fuel : ℕ) : Scanner Token := do
  let start ← get
  let d ← peek text 1
  if isDigit c ∨ c = '-' ∧ d.any isDigit then number text fuel
  else if isNameStart c then path text fuel
  else throw ⟨start, .unexpectedCharacter c⟩

/-- Read the token that begins with `c`. -/
def token (c : Char) (fuel : ℕ) : Scanner Token :=
  match c with
  | '(' => sign text .leftParen
  | ')' => sign text .rightParen
  | '~' => sign text .not
  | '&' => connective text '&' .and
  | '|' => connective text '|' .or
  | '=' => comparator text .eq (.error .singleEquals)
  | '!' => comparator text .ne (.error .singleBang)
  | '<' => comparator text .le (.ok (.comparator .lt))
  | '>' => comparator text .ge (.ok (.comparator .gt))
  | '\'' => quoted text '\'' fuel
  | '"' => quoted text '"' fuel
  | c => word text c fuel

/-- Read the next token. -/
def next (fuel : ℕ) : Scanner PlacedToken := do
  skipWhile text isBlank fuel
  let start ← get
  let c ← peek text 0
  match c with
  | none => pure ⟨.endOfInput, start⟩
  | some c => do
    let t ← token text c fuel
    pure ⟨t, start⟩

/-! ## Single steps -/

variable {text} {i fuel : ℕ} {c : Char} {cs rest : List Char}

lemma drop_add (h : text.drop i = cs) (n : ℕ) : text.drop (i + n) = cs.drop n := by
  rw [← h, List.drop_drop]

lemma drop_succ (h : text.drop i = c :: cs) : text.drop (i + 1) = cs := drop_add h 1

/-- The characters ahead are those that are left. -/
lemma runFrom_peek (h : text.drop i = cs) (ahead : ℕ) :
    (peek text ahead).runFrom i = some (.ok cs[ahead]?, i) := by
  rw [peek, runFrom_bind_ok (runFrom_get i), runFrom_pure, ← h, List.getElem?_drop]

lemma runFrom_peek_here (h : text.drop i = cs) :
    (peek text 0).runFrom i = some (.ok cs.head?, i) := by
  rw [runFrom_peek h, List.head?_eq_getElem?]

lemma runFrom_advance (h : text.drop i = c :: cs) :
    (advance text).runFrom i = some (.ok (), i + 1) := by
  have hlength := congrArg List.length h
  rw [List.length_drop, List.length_cons] at hlength
  rw [advance, runFrom_bind_ok (runFrom_get i), if_pos (by omega), runFrom_modify]

lemma exists_cons_of_any_head? {p : Char → Bool} (h : cs.head?.any p) :
    ∃ c rest, cs = c :: rest ∧ p c := by
  obtain ⟨c, hhead, hc⟩ := (Option.any_eq_true _ _).1 h
  obtain ⟨rest, rfl⟩ := List.head?_eq_some_iff.1 hhead
  exact ⟨c, rest, rfl, hc⟩

/-- A slice holds the characters that have been gone over. -/
lemma runFrom_slice (h : text.drop i = cs ++ rest) (hi : i ≤ text.length) :
    (slice text i).runFrom (i + cs.length) = some (.ok cs, i + cs.length) := by
  have hlength := congrArg List.length h
  rw [List.length_drop, List.length_append] at hlength
  have hbounds : i ≤ i + cs.length ∧ i + cs.length ≤ text.length := by omega
  rw [slice, runFrom_bind_ok (runFrom_get _), if_pos hbounds, Nat.add_sub_cancel_left, h,
    List.take_left, runFrom_pure]

lemma runFrom_skipWhile (p : Char → Bool) (h : text.drop i = cs) (hfuel : cs.length < fuel) :
    (skipWhile text p fuel).runFrom i = some (.ok (), i + (cs.takeWhile p).length) := by
  obtain ⟨fuel, rfl⟩ := Nat.exists_eq_add_one_of_ne_zero (Nat.ne_zero_of_lt hfuel)
  induction cs generalizing i fuel with
  | nil =>
    rw [skipWhile, runFrom_bind_ok (runFrom_peek_here h)]
    rfl
  | cons c rest ih =>
    rw [skipWhile, runFrom_bind_ok (runFrom_peek_here h), List.head?_cons, Option.any_some]
    by_cases hc : p c
    · obtain ⟨fuel, rfl⟩ := Nat.exists_eq_add_one_of_ne_zero
        (Nat.ne_zero_of_lt (Nat.lt_of_succ_lt_succ hfuel))
      rw [if_pos hc, runFrom_bind_ok (runFrom_advance h),
        ih (drop_succ h) fuel (Nat.lt_of_succ_lt_succ hfuel), List.takeWhile_cons_of_pos hc,
        List.length_cons, Nat.add_assoc, Nat.add_comm 1]
    · rw [if_neg hc, runFrom_pure, List.takeWhile_cons_of_neg hc]
      rfl

/-! ## Numbers -/

lemma runFrom_skipDigits_step (pointed : Bool) (h : text.drop i = cs) :
    (skipDigits text pointed (fuel + 1)).runFrom i =
      if cs.head?.any isDigit then (skipDigits text pointed fuel).runFrom (i + 1)
      else if cs.head? = some '.' ∧ pointed = false ∧ cs[1]?.any isDigit then
        (skipDigits text true fuel).runFrom (i + 1)
      else some (.ok pointed, i) := by
  rw [skipDigits, runFrom_bind_ok (runFrom_peek_here h), runFrom_bind_ok (runFrom_peek h 1)]
  split_ifs with hdigit hpoint
  · obtain ⟨c, rest, rfl, -⟩ := exists_cons_of_any_head? hdigit
    rw [runFrom_bind_ok (runFrom_advance h)]
  · obtain ⟨rest, rfl⟩ := List.head?_eq_some_iff.1 hpoint.1
    rw [runFrom_bind_ok (runFrom_advance h)]
  · rfl

lemma runFrom_skipDigits_append {pointed : Bool} {ds : List Char} (hds : ∀ d ∈ ds, isDigit d)
    (h : text.drop i = ds ++ rest) :
    (skipDigits text pointed (fuel + ds.length)).runFrom i
      = (skipDigits text pointed fuel).runFrom (i + ds.length) := by
  induction ds generalizing i with
  | nil => rfl
  | cons d ds ih =>
    obtain ⟨hd, hds⟩ := List.forall_mem_cons.1 hds
    rw [List.length_cons, ← Nat.add_assoc, runFrom_skipDigits_step pointed h,
      if_pos (by simpa using hd), ih hds (drop_succ h), Nat.add_assoc, Nat.add_comm 1]

lemma runFrom_skipDigits_point {d : Char} (hd : isDigit d) (h : text.drop i = '.' :: d :: rest) :
    (skipDigits text false (fuel + 1)).runFrom i = (skipDigits text true fuel).runFrom (i + 1) := by
  have hdot : ¬ (some '.').any isDigit = true := by decide
  rw [runFrom_skipDigits_step false h, List.head?_cons, if_neg hdot, if_pos ⟨rfl, rfl, hd⟩]

/-- The digits end where neither a digit follows nor a first point with places. -/
lemma runFrom_skipDigits_end {pointed : Bool} (h : text.drop i = cs)
    (hdigit : cs.head?.any isDigit = false) (hpoint : pointed = true ∨ placesOf cs = []) :
    (skipDigits text pointed (fuel + 1)).runFrom i = some (.ok pointed, i) := by
  rw [runFrom_skipDigits_step pointed h, if_neg (by simp [hdigit]), if_neg]
  rintro ⟨hdot, rfl, hnext⟩
  obtain ⟨rest, rfl⟩ := List.head?_eq_some_iff.1 hdot
  cases rest with
  | nil => cases hnext
  | cons d rest =>
    have hd : isDigit d := by simpa using hnext
    simp [placesOf, hd] at hpoint

lemma any_head?_dropWhile (p : Char → Bool) (cs : List Char) :
    (cs.dropWhile p).head?.any p = false := by
  have h := List.head?_dropWhile_not p cs
  cases hhead : (cs.dropWhile p).head? with
  | none => rfl
  | some c => simpa [hhead] using h

lemma drop_length_takeWhile (p : Char → Bool) (cs : List Char) :
    cs.drop (cs.takeWhile p).length = cs.dropWhile p := by
  have h := List.takeWhile_append_dropWhile (p := p) (l := cs)
  calc cs.drop (cs.takeWhile p).length
      = (cs.takeWhile p ++ cs.dropWhile p).drop (cs.takeWhile p).length := by rw [h]
    _ = cs.dropWhile p := List.drop_left

/-- The digits of a number are gone over, and with a point the places behind it. -/
lemma runFrom_skipDigits {whole : List Char} (hwhole : ∀ d ∈ whole, isDigit d)
    (h : text.drop i = whole ++ cs) (hcs : cs.head?.any isDigit = false)
    (hfuel : (whole ++ cs).length < fuel) :
    (skipDigits text false fuel).runFrom i
      = some (.ok !(placesOf cs).isEmpty, i + (numberChars false whole (placesOf cs)).length) := by
  rw [List.length_append] at hfuel
  obtain ⟨left, rfl⟩ : ∃ left, fuel = left + whole.length :=
    ⟨fuel - whole.length, by omega⟩
  rw [runFrom_skipDigits_append hwhole h]
  have hbehind : text.drop (i + whole.length) = cs := by rw [drop_add h, List.drop_left]
  cases hplaces : placesOf cs with
  | nil =>
    obtain ⟨left, rfl⟩ : ∃ n, left = n + 1 := ⟨left - 1, by omega⟩
    rw [runFrom_skipDigits_end hbehind hcs (.inr hplaces)]
    simp [numberChars]
  | cons d places =>
    -- then the text goes on with a point and `d`
    unfold placesOf at hplaces
    split at hplaces
    case h_2 => cases hplaces
    case h_1 rest =>
      have hsplit := List.takeWhile_append_dropWhile (p := isDigit) (l := rest)
      have hdigits : ∀ c ∈ rest.takeWhile isDigit, isDigit c := fun c => List.mem_takeWhile_imp
      have hlength := congrArg List.length hsplit
      rw [hplaces] at hsplit hdigits hlength
      rw [List.length_append] at hlength
      rw [List.length_cons] at hfuel
      rw [← hsplit] at hbehind
      have hend : text.drop (i + whole.length + 1 + (d :: places).length)
          = rest.dropWhile isDigit := by
        rw [drop_add (drop_succ hbehind)]
        exact List.drop_left
      obtain ⟨left, rfl⟩ : ∃ n, left = n + 1 + (d :: places).length + 1 :=
        ⟨left - 1 - (d :: places).length - 1, by omega⟩
      rw [runFrom_skipDigits_point (hdigits d (by simp)) hbehind,
        runFrom_skipDigits_append hdigits (drop_succ hbehind),
        runFrom_skipDigits_end hend (any_head?_dropWhile ..) (.inl rfl)]
      simp [numberChars]
      omega

lemma not_isDigit_of_mem_head?_places (places : List Char) :
    ∀ c ∈ (numberChars false [] places).head?, isDigit c = false := by
  cases places with
  | nil => nofun
  | cons p places =>
    rintro c ⟨⟩
    decide

lemma placesOf_places {places : List Char} (hplaces : ∀ d ∈ places, isDigit d) :
    placesOf (numberChars false [] places) = places := by
  cases places with
  | nil => rfl
  | cons p places => exact List.takeWhile_eq_self_iff.2 hplaces

lemma head?_numberChars {negative : Bool} {whole places : List Char}
    (hwhole : ∀ d ∈ whole, isDigit d) (hne : whole ≠ []) :
    (numberChars negative whole places).head? = some '-' ↔ negative = true := by
  cases negative with
  | true => exact iff_of_true rfl rfl
  | false =>
    obtain ⟨d, ds, rfl⟩ := List.exists_cons_of_ne_nil hne
    refine iff_of_false (fun hminus => ?_) Bool.false_ne_true
    obtain rfl : d = '-' := Option.some_inj.1 hminus
    exact absurd (hwhole '-' (List.mem_cons_self ..)) (by decide)

/-- What is written for a number is read back. -/
lemma numeral?_numberChars {negative : Bool} {whole places : List Char}
    (hwhole : ∀ d ∈ whole, isDigit d) (hne : whole ≠ []) (hplaces : ∀ d ∈ places, isDigit d) :
    numeral? (!places.isEmpty) (numberChars negative whole places)
      = numberCell? negative whole places := by
  have hdigits : (if negative then (numberChars negative whole places).tail
      else numberChars negative whole places) = whole ++ numberChars false [] places := by
    cases negative <;> simp [numberChars]
  simp only [numeral?, head?_numberChars hwhole hne, Bool.decide_eq_true, hdigits,
    takeWhile_isDigit hwhole (not_isDigit_of_mem_head?_places places), List.drop_left,
    placesOf_places hplaces, numberCell?]
  cases places.isEmpty <;> rfl

/-- What comes of a scan that starts at a position of a text. -/
def resultAt (i : ℕ) (s : Scan) : Except SyntaxError Token × ℕ :=
  (match s.outcome with
    | .ok t => .ok t
    | .error (offset, fault) => .error ⟨i + offset, fault⟩, i + s.used)

lemma runFrom_skipSign {negative : Bool} (h : text.drop i = if negative then '-' :: cs else cs)
    (hcs : cs.head?.any isDigit) :
    ∃ j, (skipSign text).runFrom i = some (.ok (), j) ∧ text.drop j = cs
      ∧ ∀ whole places, i + (numberChars negative whole places).length
        = j + (numberChars false whole places).length := by
  rw [skipSign, runFrom_bind_ok (runFrom_peek_here h)]
  cases negative with
  | true =>
    refine ⟨i + 1, runFrom_advance h, drop_succ h, fun whole places => ?_⟩
    simp [numberChars]
    omega
  | false =>
    have hminus : cs.head? ≠ some '-' := by
      intro hminus
      rw [hminus] at hcs
      exact absurd hcs (by decide)
    rw [if_neg Bool.false_ne_true] at h ⊢
    rw [if_neg hminus]
    exact ⟨i, rfl, h, fun _ _ => rfl⟩

lemma runFrom_number {negative : Bool} (h : text.drop i = if negative then '-' :: cs else cs)
    (hcs : cs.head?.any isDigit) (hi : i ≤ text.length) (hfuel : cs.length < fuel) :
    (number text fuel).runFrom i = some (resultAt i (scanNumber negative cs)) := by
  obtain ⟨j, hsign, hj, hlength⟩ := runFrom_skipSign h hcs
  obtain ⟨rest, hrest⟩ := eq_places_append (cs.dropWhile isDigit)
  have hwhole : ∀ d ∈ cs.takeWhile isDigit, isDigit d := fun d => List.mem_takeWhile_imp
  have hne : cs.takeWhile isDigit ≠ [] := by
    obtain ⟨d, rest, rfl, hd⟩ := exists_cons_of_any_head? hcs
    simp [hd]
  have hplaces : ∀ d ∈ placesOf (cs.dropWhile isDigit), isDigit d :=
    fun d => isDigit_of_mem_placesOf
  have hsplit : cs = cs.takeWhile isDigit ++ cs.dropWhile isDigit :=
    List.takeWhile_append_dropWhile.symm
  have hskip := runFrom_skipDigits hwhole (hj.trans hsplit) (any_head?_dropWhile isDigit cs)
    (by rwa [← hsplit])
  rw [scanNumber, drop_length_takeWhile]
  generalize cs.takeWhile isDigit = whole at hwhole hne hsplit hskip ⊢
  rw [hrest] at hsplit
  generalize placesOf (cs.dropWhile isDigit) = places at hplaces hsplit hskip ⊢
  have hcs : cs = numberChars false whole places ++ rest := by simpa [numberChars] using hsplit
  have hwritten : text.drop i = numberChars negative whole places ++ rest := by
    rw [h, hcs]
    cases negative <;> simp [numberChars]
  have hbehind := drop_add hwritten (numberChars negative whole places).length
  rw [List.drop_left] at hbehind
  rw [← hlength] at hskip
  rw [number, runFrom_bind_ok (runFrom_get i), runFrom_bind_ok hsign,
    runFrom_bind_ok hskip, runFrom_bind_ok (runFrom_peek_here hbehind), hcs, List.drop_left]
  split_ifs with hnext
  · rfl
  · rw [runFrom_bind_ok (runFrom_slice hwritten hi), numeral?_numberChars hwhole hne hplaces]
    cases numberCell? negative whole places <;> rfl

/-! ## Quoted texts, names and paths -/

lemma runFrom_quoted {quote : Char} (h : text.drop i = quote :: cs) (hi : i ≤ text.length)
    (hfuel : cs.length < fuel) :
    (quoted text quote fuel).runFrom i = some (resultAt i (scanQuoted quote cs)) := by
  have hinside := drop_succ h
  have hlength := congrArg List.length h
  rw [List.length_drop, List.length_cons] at hlength
  have hsplit := List.takeWhile_append_dropWhile (p := (· != quote)) (l := cs)
  have hslice := runFrom_slice (hinside.trans hsplit.symm) (by omega)
  have hbehind : text.drop (i + 1 + (cs.takeWhile (· != quote)).length)
      = cs.dropWhile (· != quote) := by
    rw [drop_add hinside, drop_length_takeWhile]
  have hempty : (cs.dropWhile (· != quote)).head? = none
      ↔ (cs.takeWhile (· != quote)).length = cs.length := by
    have hlengths := congrArg List.length hsplit
    rw [List.length_append] at hlengths
    rw [List.head?_eq_none_iff, ← List.length_eq_zero_iff]
    omega
  rw [quoted, runFrom_bind_ok (runFrom_get i), runFrom_bind_ok (runFrom_advance h),
    runFrom_bind_ok (runFrom_get _), runFrom_bind_ok (runFrom_skipWhile _ hinside hfuel),
    runFrom_bind_ok (runFrom_peek_here hbehind), scanQuoted]
  by_cases hend : (cs.takeWhile (· != quote)).length = cs.length
  · rw [if_pos (hempty.2 hend), if_pos hend, hend, runFrom_throw, Nat.add_assoc, Nat.add_comm 1]
    rfl
  · obtain ⟨q, rest, hclosing⟩ : ∃ q rest, cs.dropWhile (· != quote) = q :: rest := by
      refine List.exists_cons_of_ne_nil fun hnil => hend (hempty.1 ?_)
      rw [hnil, List.head?_nil]
    rw [if_neg fun h => hend (hempty.1 h), if_neg hend, runFrom_bind_ok hslice,
      runFrom_bind_ok (runFrom_advance (hbehind.trans hclosing)), runFrom_pure]
    simp only [resultAt, Option.some_inj, Prod.mk.injEq, true_and]
    omega

lemma runFrom_name (h : text.drop i = cs) (hi : i ≤ text.length) (hfuel : cs.length < fuel) :
    (name text fuel).runFrom i = some (.ok (String.ofList (cs.takeWhile isNameChar)),
      i + (cs.takeWhile isNameChar).length) := by
  have hsplit := List.takeWhile_append_dropWhile (p := isNameChar) (l := cs)
  rw [name, runFrom_bind_ok (runFrom_get i), runFrom_bind_ok (runFrom_skipWhile _ h hfuel),
    runFrom_bind_ok (runFrom_slice (h.trans hsplit.symm) hi), runFrom_pure]

lemma runFrom_segments_end {last : String} {before : List String} (h : text.drop i = cs)
    (hcs : cs.head? ≠ some '.') :
    (segments text last before (fuel + 1)).runFrom i = some (.ok (ofSegments last before), i) := by
  rw [segments, runFrom_bind_ok (runFrom_peek_here h), if_neg hcs, runFrom_pure]

lemma runFrom_segments_fault {last : String} {before : List String} (h : text.drop i = '.' :: cs)
    (hcs : cs.head?.any isNameStart = false) :
    (segments text last before (fuel + 1)).runFrom i
      = some (.error ⟨i + 1, .nameExpected⟩, i + 1) := by
  rw [segments, runFrom_bind_ok (runFrom_peek_here h), List.head?_cons, if_pos rfl,
    runFrom_bind_ok (runFrom_get i), runFrom_bind_ok (runFrom_advance h),
    runFrom_bind_ok (runFrom_peek_here (drop_succ h)), if_neg (by simp [hcs]), runFrom_throw]

lemma runFrom_segments_point {last : String} {before : List String} {d : Char}
    (h : text.drop i = '.' :: d :: cs) (hd : isNameStart d) (hfuel : (d :: cs).length < fuel) :
    (segments text last before (fuel + 1)).runFrom i
      = (segments text (String.ofList (d :: cs.takeWhile isNameChar)) (last :: before) fuel).runFrom
        (i + 2 + (cs.takeWhile isNameChar).length) := by
  have hlength := congrArg List.length h
  rw [List.length_drop, List.length_cons, List.length_cons] at hlength
  rw [segments, runFrom_bind_ok (runFrom_peek_here h), List.head?_cons, if_pos rfl,
    runFrom_bind_ok (runFrom_get i), runFrom_bind_ok (runFrom_advance h),
    runFrom_bind_ok (runFrom_peek_here (drop_succ h)), if_pos (by simpa using hd),
    runFrom_bind_ok (runFrom_name (drop_succ h) (by omega) hfuel),
    List.takeWhile_cons_of_pos (isNameChar_of_isNameStart hd), List.length_cons]
  congr 1
  omega

/-- Behind a segment the reader goes on as the scan does inside of it. -/
lemma runFrom_segments {before : List String} {current : List Char} {used : ℕ}
    (h : text.drop (i + used) = cs) (hfuel : cs.length < fuel) :
    (segments text (String.ofList (current.reverse ++ cs.takeWhile isNameChar)) before fuel).runFrom
      (i + used + (cs.takeWhile isNameChar).length)
      = some (resultAt i (scanPath before current used cs)) := by
  obtain ⟨fuel, rfl⟩ := Nat.exists_eq_add_one_of_ne_zero (Nat.ne_zero_of_lt hfuel)
  fun_induction scanPath before current used cs generalizing fuel with
  | case1 before current used =>
    rw [List.takeWhile_nil, List.append_nil]
    exact runFrom_segments_end h (by simp)
  | case2 before current used c rest hc ih =>
    rw [List.takeWhile_cons_of_pos hc, List.length_cons,
      ← ih (drop_succ h) fuel (Nat.lt_of_succ_lt hfuel), List.reverse_cons, List.append_assoc,
      List.singleton_append]
    congr 1
    omega
  | case3 before current used hdot =>
    rw [List.takeWhile_cons_of_neg hdot, List.append_nil]
    exact runFrom_segments_fault h rfl
  | case4 before current used d rest hd hdot ih =>
    rw [List.takeWhile_cons_of_neg hdot, List.append_nil]
    have hrest : (d :: rest).length < fuel := Nat.lt_of_succ_lt_succ hfuel
    obtain ⟨fuel, rfl⟩ := Nat.exists_eq_add_one_of_ne_zero (Nat.ne_zero_of_lt hrest)
    exact (runFrom_segments_point h hd hrest).trans
      (ih (drop_add h 2) fuel (Nat.lt_of_succ_lt hrest))
  | case5 before current used d rest hd hdot =>
    rw [List.takeWhile_cons_of_neg hdot, List.append_nil]
    exact runFrom_segments_fault h (by simpa using hd)
  | case6 before current used c rest hc hdot =>
    rw [List.takeWhile_cons_of_neg hc, List.append_nil]
    exact runFrom_segments_end h (by simpa using hdot)

lemma runFrom_path (h : text.drop i = c :: cs) (hc : isNameStart c)
    (hfuel : (c :: cs).length < fuel) :
    (path text fuel).runFrom i = some (resultAt i (scanPath [] [c] 1 cs)) := by
  have hlength := congrArg List.length h
  rw [List.length_drop, List.length_cons] at hlength
  rw [path, runFrom_bind_ok (runFrom_name h (by omega) hfuel),
    List.takeWhile_cons_of_pos (isNameChar_of_isNameStart hc),
    ← runFrom_segments (drop_succ h) (Nat.lt_of_succ_lt hfuel), List.length_cons]
  congr 1
  omega

/-! ## Tokens -/

lemma runFrom_comparator {op : Comparator} {alone : Except SyntaxFault Token}
    (h : text.drop i = c :: cs) :
    (comparator text op alone).runFrom i
      = some (resultAt i (scanComparator op (alone.mapError (0, ·)) cs)) := by
  rw [comparator, runFrom_bind_ok (runFrom_get i), runFrom_bind_ok (runFrom_advance h),
    runFrom_bind_ok (runFrom_peek_here (drop_succ h)), scanComparator]
  split_ifs with hequals
  · obtain ⟨rest, rfl⟩ := List.head?_eq_some_iff.1 hequals
    rw [runFrom_bind_ok (runFrom_advance (drop_succ h))]
    rfl
  · cases alone <;> rfl

lemma runFrom_sign {t : Token} (h : text.drop i = c :: cs) :
    (sign text t).runFrom i = some (resultAt i ⟨.ok t, 1⟩) := by
  rw [sign, runFrom_bind_ok (runFrom_advance h)]
  rfl

lemma runFrom_connective {d : Char} {t : Token} (h : text.drop i = c :: cs) :
    (connective text d t).runFrom i = some (resultAt i (scanConnective d t cs)) := by
  rw [connective, runFrom_bind_ok (runFrom_get i), runFrom_bind_ok (runFrom_advance h),
    runFrom_bind_ok (runFrom_peek_here (drop_succ h)), scanConnective]
  split_ifs <;> rfl

lemma runFrom_word (h : text.drop i = c :: cs) (hi : i ≤ text.length)
    (hfuel : (c :: cs).length < fuel) :
    (word text c fuel).runFrom i = some (resultAt i (scanWord c cs)) := by
  rw [word, runFrom_bind_ok (runFrom_get i), runFrom_bind_ok (runFrom_peek h 1), scanWord,
    List.getElem?_cons_succ, ← List.head?_eq_getElem?]
  by_cases hdigit : isDigit c
  · rw [if_pos (.inl hdigit), if_pos hdigit]
    exact runFrom_number h (by simpa using hdigit) hi hfuel
  · rw [if_neg hdigit]
    by_cases hminus : c = '-' ∧ cs.head?.any isDigit
    · rw [if_pos (.inr hminus), if_pos hminus]
      rw [hminus.1] at h
      have hsign : text.drop i = if true then '-' :: cs else cs := h
      exact runFrom_number hsign hminus.2 hi (Nat.lt_of_succ_lt hfuel)
    · rw [if_neg (not_or.2 ⟨hdigit, hminus⟩), if_neg hminus]
      split_ifs with hstart
      · exact runFrom_path h hstart hfuel
      · rfl

/-- A token is read as it is scanned. -/
lemma runFrom_token (h : text.drop i = c :: cs) (hi : i ≤ text.length)
    (hfuel : (c :: cs).length < fuel) :
    (token text c fuel).runFrom i = some (resultAt i (scan (c :: cs))) := by
  unfold token
  split
  case h_1 | h_2 | h_3 => exact runFrom_sign h
  case h_4 | h_5 => exact runFrom_connective h
  case h_6 | h_7 | h_8 | h_9 => exact runFrom_comparator h
  case h_10 | h_11 => exact runFrom_quoted h hi (Nat.lt_of_succ_lt hfuel)
  case h_12 =>
    have hword : c ∉ punctuation := by simp_all [punctuation]
    rw [scan_cons hword]
    exact runFrom_word h hi hfuel

/-- **A scanner that counts positions finds what a cursor finds**, and ends where it ends. -/
theorem runFrom_next (h : text.drop i = cs) (hi : i ≤ text.length) (hfuel : text.length < fuel) :
    (next text fuel).runFrom i
      = some ((⟨i, cs⟩ : Cursor).next.1, (⟨i, cs⟩ : Cursor).next.2.position) := by
  have hlength : text.length = i + cs.length := by
    rw [← h, List.length_drop]
    omega
  have hblanks := congrArg List.length
    (List.takeWhile_append_dropWhile (p := isBlank) (l := cs))
  rw [List.length_append] at hblanks
  have hbehind := drop_add h (cs.takeWhile isBlank).length
  rw [drop_length_takeWhile] at hbehind
  rw [next, runFrom_bind_ok (runFrom_skipWhile _ h (by omega)), runFrom_bind_ok (runFrom_get _),
    runFrom_bind_ok (runFrom_peek_here hbehind)]
  unfold Cursor.next Cursor.skipBlanks Cursor.advance
  dsimp only
  rw [drop_length_takeWhile]
  generalize (cs.takeWhile isBlank).length = blanks at hblanks hbehind ⊢
  generalize cs.dropWhile isBlank = rest at hblanks hbehind ⊢
  cases rest with
  | nil => rfl
  | cons c rest =>
    rw [List.length_cons] at hblanks
    have htoken : (token text c fuel).runFrom (i + blanks)
        = some (resultAt (i + blanks) (scan (c :: rest))) :=
      runFrom_token hbehind (by omega) (by rw [List.length_cons]; omega)
    unfold resultAt at htoken
    rw [List.head?_cons]
    cases hscan : (scan (c :: rest)).outcome with
    | ok t =>
      rw [hscan] at htoken
      rw [runFrom_bind_ok htoken]
      rfl
    | error fault =>
      rw [hscan] at htoken
      rw [runFrom_bind_error htoken]

end Scanner

/-! ## Within the text -/

namespace Token

lemma used_scanNumber_le {negative : Bool} {cs : List Char} :
    (scanNumber negative cs).used ≤ cs.length + if negative then 1 else 0 := by
  obtain ⟨rest, hrest⟩ := eq_places_append (cs.dropWhile isDigit)
  have hlength := congrArg List.length (List.takeWhile_append_dropWhile (p := isDigit) (l := cs))
  rw [hrest] at hlength
  have hused : (scanNumber negative cs).used
      = (numberChars negative (cs.takeWhile isDigit) (placesOf (cs.dropWhile isDigit))).length := by
    rw [scanNumber, Scanner.drop_length_takeWhile]
    split_ifs
    · rfl
    · split <;> rfl
  rw [hused, ← hlength]
  cases negative <;> simp [numberChars]

lemma used_scanQuoted_le (quote : Char) (cs : List Char) :
    (scanQuoted quote cs).used ≤ cs.length + 1 := by
  have hlength := (List.takeWhile_prefix (· != quote) (l := cs)).length_le
  unfold scanQuoted
  dsimp only
  split_ifs
  · exact le_rfl
  · dsimp only
    omega

lemma used_scanPath_le (segments : List String) (current : List Char) (used : ℕ) (cs : List Char) :
    (scanPath segments current used cs).used ≤ used + cs.length := by
  fun_induction scanPath segments current used cs with
  | case1 | case6 => exact Nat.le_add_right ..
  | case2 _ _ _ _ _ _ ih | case4 _ _ _ _ _ _ _ ih =>
    simp only [List.length_cons]
    omega
  | case3 | case5 =>
    simp only [List.length_cons]
    omega

lemma used_scanWord_le (c : Char) (rest : List Char) :
    (scanWord c rest).used ≤ rest.length + 1 := by
  unfold scanWord
  split_ifs
  · exact used_scanNumber_le
  · exact used_scanNumber_le
  · rw [Nat.add_comm]
    exact used_scanPath_le ..
  · exact Nat.zero_le _

lemma used_scanConnective_le (c : Char) (t : Token) (rest : List Char) :
    (scanConnective c t rest).used ≤ rest.length + 1 := by
  unfold scanConnective
  split_ifs <;> simp

lemma used_scanComparator_le (op : Comparator) (alone : Except (ℕ × SyntaxFault) Token)
    (rest : List Char) : (scanComparator op alone rest).used ≤ rest.length + 1 := by
  unfold scanComparator
  split_ifs with hequals
  · obtain ⟨tail, rfl⟩ := List.head?_eq_some_iff.1 hequals
    simp
  · simp

/-- A scan takes no more characters than there are. -/
theorem used_scan_le (cs : List Char) : (scan cs).used ≤ cs.length := by
  cases cs with
  | nil => exact le_rfl
  | cons c rest =>
    simp only [scan]
    split
    case h_4 | h_5 => exact used_scanConnective_le ..
    case h_6 | h_7 | h_8 | h_9 => exact used_scanComparator_le ..
    case h_10 | h_11 => exact used_scanQuoted_le ..
    case h_12 => exact used_scanWord_le ..
    -- parentheses and the negation sign
    all_goals exact Nat.le_add_left ..

end Token

namespace Cursor

/-- The cursor stands in the text, and what is left for it is the text from there on. -/
structure Within (text : List Char) (c : Cursor) : Prop where
  position_le : c.position ≤ text.length
  drop_eq : text.drop c.position = c.rest

variable {text : List Char} {c : Cursor}

lemma within_start (text : List Char) : (start text).Within text := ⟨Nat.zero_le _, rfl⟩

lemma Within.advance (h : c.Within text) {n : ℕ} (hn : n ≤ c.rest.length) :
    (c.advance n).Within text := by
  have hlength := congrArg List.length h.drop_eq
  rw [List.length_drop] at hlength
  have hle := h.position_le
  refine ⟨?_, Scanner.drop_add h.drop_eq n⟩
  change c.position + n ≤ text.length
  omega

lemma Within.skipBlanks (h : c.Within text) : c.skipBlanks.Within text :=
  h.advance (List.takeWhile_prefix isBlank).length_le

/-- A cursor in a text stays in it. -/
lemma Within.next (h : c.Within text) : c.next.2.Within text :=
  h.skipBlanks.advance (Token.used_scan_le _)

/-- A cursor does not go back. -/
lemma position_le_next (c : Cursor) : c.position ≤ c.next.2.position :=
  (Nat.le_add_right ..).trans (Nat.le_add_right ..)

end Cursor

end LinkedTables
