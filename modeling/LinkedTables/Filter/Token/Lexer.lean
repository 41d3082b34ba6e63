import LinkedTables.Text.CharClass
import LinkedTables.Failure

/-!
# From characters to tokens

`scan` looks at the text from the first character of a token on, and says what stands there and
how many characters it takes.  It knows nothing of what came before, so a token depends only on
its own characters and the few that follow it.

A `Cursor` is a place in a text.  `Cursor.next` skips blanks, scans one token and moves on, and it
can be asked again after an error too: the cursor then stands where the scan gave up.  `tokenize`
asks until the end of the input.
-/

namespace LinkedTables

open Text

namespace Token

/-! ## One token -/

/-- What stands at the beginning of a text: a token, or a fault a number of characters further on;
and how many characters were taken for it. -/
structure Scan where
  outcome : Except (Nat × SyntaxFault) Token
  used : Nat

/-- The number that decimal digits stand for. -/
def digitsValue (ds : List Char) : Nat := ds.foldl (fun n d => 10 * n + (d.toNat - '0'.toNat)) 0

/-- The cell of an integer, if it has 64 bits at most. -/
def integerCell? (negative : Bool) (ds : List Char) : Option Cell :=
  let n : Int := if negative then -(digitsValue ds : Int) else digitsValue ds
  if Int64.minValue.toInt ≤ n && n ≤ Int64.maxValue.toInt then some (.integer (.ofInt n)) else none

/-- The cell of a number with decimal places, if it is not too large. -/
def floatCell? (negative : Bool) (whole places : List Char) : Option Cell :=
  let x := Binary64.ofDecimal negative (digitsValue (whole ++ places)) places.length
  if x.isFinite then some (.float x) else none

/-- The decimal places at the beginning of a text: a point and at least one digit. -/
def placesOf : List Char → List Char
  | '.' :: rest => rest.takeWhile isDigit
  | _ => []

/-- How a number is written, given its digits before and after the point. -/
def numberChars (negative : Bool) (whole places : List Char) : List Char :=
  (if negative then ['-'] else []) ++ whole ++ if places.isEmpty then [] else '.' :: places

/-- The cell of a number, if there is one: an integer if it is written without places. -/
def numberCell? (negative : Bool) (whole places : List Char) : Option Cell :=
  if places.isEmpty then integerCell? negative whole else floatCell? negative whole places

/-- Scan a number from its first digit on; `negative` says that a minus sign stands before it.  A
point belongs to the number only if a digit follows, and no letter, digit or point may come right
after it. -/
def scanNumber (negative : Bool) (cs : List Char) : Scan :=
  let whole := cs.takeWhile isDigit
  let places := placesOf (cs.drop whole.length)
  let written := numberChars negative whole places
  let next := cs.drop (numberChars false whole places).length
  if next.head?.any fun c => isNameChar c || c == '.' then
    ⟨.error (0, .malformedNumber), written.length⟩
  else
    match numberCell? negative whole places with
    | some cell => ⟨.ok (.literal cell), written.length⟩
    | none => ⟨.error (0, .numberOutOfRange (String.ofList written)), written.length⟩

/-- Scan a text in quotes from behind its opening quote.  There are no escapes: it goes to the next
quote of the same kind. -/
def scanQuoted (quote : Char) (cs : List Char) : Scan :=
  let content := cs.takeWhile (· != quote)
  if content.length = cs.length then ⟨.error (0, .unterminatedText), cs.length + 1⟩
  else ⟨.ok (.literal (.text (String.ofList content))), content.length + 2⟩

/-- The literal that a name stands for when it is written alone, in capitals or not.  No letter
outside ASCII has one of the letters of these words as its small letter. -/
def keyword? (name : String) : Option Cell :=
  match name.toLower with
  | "true" => some (.boolean true)
  | "false" => some (.boolean false)
  | "none" => some .null
  | "null" => some .null
  | "nan" => some .null
  | "nat" => some .null
  | _ => none

/-- The token of a path: a single segment may be a keyword. -/
def ofPath (first : String) : List String → Token
  | [] => (keyword? first).elim (.column first []) .literal
  | second :: rest => .column first (second :: rest)

/-- The token of a path, given by its last segment and the segments before it, the last one
first. -/
def ofSegments (last : String) (before : List String) : Token :=
  let path := before.foldl (fun path segment => (segment, path.1 :: path.2)) (last, [])
  ofPath path.1 path.2

/-- Scan a path from inside a segment on.  Given are the complete segments, the last one first,
the characters of the current segment, the last one first, and how many characters have been taken
so far. -/
def scanPath (segments : List String) (current : List Char) (used : Nat) : List Char → Scan
  | [] => ⟨.ok (ofSegments (String.ofList current.reverse) segments), used⟩
  | c :: rest =>
    if isNameChar c then scanPath segments (c :: current) (used + 1) rest
    else if c = '.' then
      match rest with
      | [] => ⟨.error (used + 1, .nameExpected), used + 1⟩
      | d :: rest =>
        if isNameStart d then
          scanPath (String.ofList current.reverse :: segments) [d] (used + 2) rest
        else ⟨.error (used + 1, .nameExpected), used + 1⟩
    else ⟨.ok (ofSegments (String.ofList current.reverse) segments), used⟩

/-- Scan an operator that is complete with the equality sign and, perhaps, without it. -/
def scanComparator (withEquals : Comparator) (alone : Except (Nat × SyntaxFault) Token)
    (rest : List Char) : Scan :=
  if rest.head? = some '=' then ⟨.ok (.comparator withEquals), 2⟩ else ⟨alone, 1⟩

/-- Scan a connective, which must not be doubled. -/
def scanConnective (c : Char) (token : Token) (rest : List Char) : Scan :=
  if rest.head? = some c then ⟨.error (0, .doubledConnective c), 1⟩ else ⟨.ok token, 1⟩

/-- Scan a number, a path or a keyword, from its first character `c` on. -/
def scanWord (c : Char) (rest : List Char) : Scan :=
  if isDigit c then scanNumber false (c :: rest)
  else if c = '-' ∧ rest.head?.any isDigit then scanNumber true rest
  else if isNameStart c then scanPath [] [c] 1 rest
  else ⟨.error (0, .unexpectedCharacter c), 0⟩

/-- Scan what the text begins with, which is no blank. -/
def scan : List Char → Scan
  | [] => ⟨.ok .endOfInput, 0⟩
  | c :: rest =>
    match c with
    | '(' => ⟨.ok .leftParen, 1⟩
    | ')' => ⟨.ok .rightParen, 1⟩
    | '~' => ⟨.ok .not, 1⟩
    | '&' => scanConnective '&' .and rest
    | '|' => scanConnective '|' .or rest
    | '=' => scanComparator .eq (.error (0, .singleEquals)) rest
    | '!' => scanComparator .ne (.error (0, .singleBang)) rest
    | '<' => scanComparator .le (.ok (.comparator .lt)) rest
    | '>' => scanComparator .ge (.ok (.comparator .gt)) rest
    | '\'' => scanQuoted '\'' rest
    | '"' => scanQuoted '"' rest
    | c => scanWord c rest

/-! ## How much is taken -/

theorem used_scanNumber_pos {negative : Bool} {cs : List Char}
    (h : negative = true ∨ cs.head?.any isDigit) : 0 < (scanNumber negative cs).used := by
  have written : 0 < (numberChars negative (cs.takeWhile isDigit)
      (placesOf (cs.drop (cs.takeWhile isDigit).length))).length := by
    rcases h with rfl | h
    · simp [numberChars]
    · cases cs with
      | nil => simp at h
      | cons c rest =>
        simp only [List.head?_cons, Option.any_some] at h
        simp only [numberChars, List.takeWhile_cons, h, if_true, List.length_append,
          List.length_cons]
        omega
  unfold scanNumber
  dsimp only
  split
  · exact written
  · split <;> exact written

theorem used_scanQuoted_pos (quote : Char) (cs : List Char) : 0 < (scanQuoted quote cs).used := by
  unfold scanQuoted
  dsimp only
  split <;> simp

theorem used_scanComparator_pos (op : Comparator) (alone : Except (Nat × SyntaxFault) Token)
    (cs : List Char) : 0 < (scanComparator op alone cs).used := by
  unfold scanComparator
  split <;> simp

theorem used_scanConnective_pos (c : Char) (t : Token) (cs : List Char) :
    0 < (scanConnective c t cs).used := by
  unfold scanConnective
  split <;> simp

theorem le_used_scanPath (segments : List String) (current : List Char) (used : Nat)
    (cs : List Char) : used ≤ (scanPath segments current used cs).used := by
  fun_induction scanPath segments current used cs with
  | case1 | case6 => exact Nat.le_refl _
  | case2 _ _ _ _ _ _ ih => exact Nat.le_of_succ_le ih
  | case3 | case5 => exact Nat.le_succ _
  | case4 _ _ _ _ _ _ _ ih => exact Nat.le_trans (Nat.le_add_right _ 2) ih

theorem used_scanWord_pos {c : Char} {rest : List Char} {t : Token}
    (ok : (scanWord c rest).outcome = .ok t) : 0 < (scanWord c rest).used := by
  unfold scanWord at ok ⊢
  by_cases digit : isDigit c
  · rw [if_pos digit]
    exact used_scanNumber_pos (.inr (by simpa using digit))
  · rw [if_neg digit] at ok ⊢
    by_cases minus : c = '-' ∧ rest.head?.any isDigit
    · rw [if_pos minus]
      exact used_scanNumber_pos (.inl rfl)
    · rw [if_neg minus] at ok ⊢
      by_cases begins : isNameStart c
      · rw [if_pos begins]
        exact le_used_scanPath ..
      · rw [if_neg begins] at ok
        cases ok

/-- A token other than the end of the input takes at least one character. -/
theorem used_scan_pos {cs : List Char} {t : Token} (ok : (scan cs).outcome = .ok t)
    (h : t ≠ .endOfInput) : 0 < (scan cs).used := by
  fun_cases scan cs
  case case1 => cases ok; exact absurd rfl h
  case case5 | case6 => exact used_scanConnective_pos ..
  case case7 | case8 | case9 | case10 => exact used_scanComparator_pos ..
  case case11 | case12 => exact used_scanQuoted_pos ..
  case case13 rest c _ _ _ _ _ _ _ _ _ _ _ =>
    simp_all only [scan]
    exact used_scanWord_pos ok
  all_goals decide

/-- Only the empty text begins with the end of the input. -/
theorem scan_nil : scan [] = ⟨.ok .endOfInput, 0⟩ := rfl

end Token

/-! ## A place in a text -/

/-- A place in a text: how many characters lie before it, and those that are left. -/
structure Cursor where
  position : Nat
  rest : List Char
deriving DecidableEq, Repr

namespace Cursor

/-- The beginning of a text. -/
def start (text : List Char) : Cursor := ⟨0, text⟩

/-- Go on by a number of characters. -/
def advance (c : Cursor) (n : Nat) : Cursor := ⟨c.position + n, c.rest.drop n⟩

/-- Go on to the next character that is no blank. -/
def skipBlanks (c : Cursor) : Cursor := c.advance (c.rest.takeWhile isBlank).length

/-- The next token and the place behind it; or the fault found and the place where the scan gave
up. -/
def next (c : Cursor) : Except SyntaxError PlacedToken × Cursor :=
  let here := c.skipBlanks
  let scan := Token.scan here.rest
  let answer := match scan.outcome with
    | .ok token => .ok ⟨token, here.position⟩
    | .error (offset, fault) => .error ⟨here.position + offset, fault⟩
  (answer, here.advance scan.used)

/-- Behind a token other than the end of the input fewer characters are left. -/
theorem length_rest_next_lt {c : Cursor} {t : PlacedToken} (ok : c.next.1 = .ok t)
    (h : t.token ≠ .endOfInput) : c.next.2.rest.length < c.rest.length := by
  unfold next at ok ⊢
  dsimp only at ok ⊢
  generalize hs : c.skipBlanks = here at ok ⊢
  have shorter : here.rest.length ≤ c.rest.length := by
    rw [← hs]; simp [skipBlanks, advance]
  split at ok
  · rename_i token outcome
    cases ok
    have used := Token.used_scan_pos outcome h
    have some : here.rest ≠ [] := by
      intro none
      rw [none, Token.scan_nil] at outcome
      cases outcome
      exact h rfl
    have := List.length_pos_iff.2 some
    simp only [advance, List.length_drop]
    omega
  · cases ok

end Cursor

/-! ## All tokens of a text -/

/-- A text as tokens: the one that stands next, and those behind it.  The last one is the end of
the input. -/
structure TokenStream where
  current : PlacedToken
  later : List PlacedToken
deriving DecidableEq, Repr

namespace TokenStream

/-- The tokens in order. -/
def toList (s : TokenStream) : List PlacedToken := s.current :: s.later

/-- Put a token in front. -/
def push (s : TokenStream) (t : PlacedToken) : TokenStream := ⟨t, s.toList⟩

/-- Go on by one token; the last one stays. -/
def advance (s : TokenStream) : TokenStream :=
  match s.later with
  | [] => s
  | t :: rest => ⟨t, rest⟩

end TokenStream

/-- The tokens from a cursor on, behind those already found, which are given from the last one
back. -/
def tokensFrom (found : List PlacedToken) (c : Cursor) : Except SyntaxError TokenStream :=
  match h : c.next.1 with
  | .error e => .error e
  | .ok t =>
    if last : t.token = .endOfInput then .ok (found.foldl TokenStream.push ⟨t, []⟩)
    else
      have := Cursor.length_rest_next_lt h last
      tokensFrom (t :: found) c.next.2
termination_by c.rest.length

/-- The tokens of a text. -/
def tokenize (text : List Char) : Except SyntaxError TokenStream := tokensFrom [] (.start text)

end LinkedTables
