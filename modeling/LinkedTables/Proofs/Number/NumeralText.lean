import Mathlib
import LinkedTables.Filter.Token.Lexer
import LinkedTables.Proofs.Number.Rounding

/-!
# Numerals read back

What a numeral written by the library stands for when it is read again, in three groups.

**Digits.**  `digitsValue_digitsOf` and `all_isDigit_digitsOf` are the two facts about decimal
digits that everything else rests on; `integerCell?_toInt` is the round trip of an integer.

**The shortest decimal.**  Whatever `Binary64.shortestDecimal` finds lies near the number, zeros
dropped or not (`near_shortestDecimal`).  A number with a fractional part never gets a decimal
without places (`places_shortestDecimal_ne_zero`), so its text has a point.

**Literals.**  `exists_numeral_literalChars`: the text of a finite number as a literal consists of
digits on both sides of a point, and reading these digits gives the number.
-/

namespace LinkedTables

open Text (isDigit)
open Token (digitsValue integerCell? floatCell? numberChars)

/-! ## Digits -/

namespace Decimal

lemma digitsValue_eq_ofDigitChars (ds : List Char) :
    digitsValue ds = Nat.ofDigitChars 10 ds 0 := by
  rw [Nat.ofDigitChars_eq_foldl]
  rfl

lemma digitsValue_digitsOf (n : ℕ) : digitsValue (digitsOf n) = n := by
  rw [digitsValue_eq_ofDigitChars]
  exact Nat.ofDigitChars_ten_toDigits

lemma digitsOf_ne_nil (n : ℕ) : digitsOf n ≠ [] := Nat.toDigits_ne_nil

lemma all_isDigit_digitsOf (n : ℕ) : ∀ c ∈ digitsOf n, isDigit c := by
  intro c hc
  have h : c.isDigit := Nat.isDigit_of_mem_toDigits (by decide) (by decide) hc
  simpa [Char.isDigit, isDigit, Char.le_def] using h

/-- Zeros in front do not change the value. -/
lemma digitsValue_replicate_append (k : ℕ) (ds : List Char) :
    digitsValue (List.replicate k '0' ++ ds) = digitsValue ds := by
  simp [digitsValue_eq_ofDigitChars, Nat.ofDigitChars_append]

/-- Dropping zeros at the end divides by a power of ten. -/
lemma exists_trim (digits places : ℕ) :
    ∃ j, places = (trim digits places).places + j
      ∧ digits = (trim digits places).digits * 10 ^ j := by
  induction places generalizing digits with
  | zero => exact ⟨0, by simp [trim]⟩
  | succ p ih =>
    simp only [trim]
    split_ifs with h
    · rcases ih (digits / 10) with ⟨j, hp, hd⟩
      refine ⟨j + 1, by omega, ?_⟩
      rw [pow_succ, ← Nat.mul_assoc, ← hd]
      omega
    · exact ⟨0, by simp⟩

/-- A decimal with places is written as digits on both sides of a point. -/
lemma exists_chars (d : Decimal) (h : d.places ≠ 0) :
    ∃ whole places, d.chars = whole ++ '.' :: places ∧ whole ≠ [] ∧ (∀ c ∈ whole, isDigit c)
      ∧ (∀ c ∈ places, isDigit c) ∧ places.length = d.places
      ∧ digitsValue (whole ++ places) = d.digits := by
  set padded := List.replicate (d.places + 1 - (digitsOf d.digits).length) '0' ++ digitsOf d.digits
    with hpadded
  have hlen : d.places + 1 ≤ padded.length := by
    simp only [hpadded, List.length_append, List.length_replicate]
    omega
  have hdigits : ∀ c ∈ padded, isDigit c := by
    intro c hc
    rcases List.mem_append.1 hc with hc | hc
    · rw [List.eq_of_mem_replicate hc]; decide
    · exact all_isDigit_digitsOf _ c hc
  refine ⟨padded.take (padded.length - d.places), padded.drop (padded.length - d.places), ?_, ?_,
    fun c hc => hdigits c (List.mem_of_mem_take hc),
    fun c hc => hdigits c (List.mem_of_mem_drop hc), ?_, ?_⟩
  · simp only [chars, if_neg h, hpadded]
  · intro hnil
    have := congrArg List.length hnil
    simp only [List.length_take, List.length_nil] at this
    omega
  · rw [List.length_drop]
    omega
  · rw [List.take_append_drop, hpadded, digitsValue_replicate_append, digitsValue_digitsOf]

end Decimal

/-- The digits of an integer of 64 bits stand for it. -/
lemma integerCell?_toInt (n : Int64) :
    integerCell? (decide (n.toInt < 0)) (Decimal.digitsOf n.toInt.natAbs)
      = some (.integer n) := by
  have hsigned : (if n.toInt < 0 then -(n.toInt.natAbs : ℤ) else n.toInt.natAbs) = n.toInt := by
    split_ifs <;> omega
  have hlow : Int64.minValue.toInt ≤ n.toInt := Int64.minValue_le_toInt n
  have hhigh : n.toInt ≤ Int64.maxValue.toInt := n.toInt_le
  simp only [integerCell?, Decimal.digitsValue_digitsOf, decide_eq_true_eq, hsigned, hlow, hhigh,
    decide_true, Bool.and_self, if_true, Int64.ofInt_toInt]

namespace Binary64

/-! ## The shortest decimal -/

/-- A value lies near itself, whatever it is scaled by. -/
lemma near_unitsOf {word c : ℕ} (hc : 0 < c) : Near word (unitsOf word * c) c := by
  have hstep : 0 < c * 2 ^ scaleOf word := Nat.mul_pos hc (Nat.two_pow_pos _)
  have hcomm : unitsOf word * c = c * unitsOf word := Nat.mul_comm _ _
  constructor <;> intros <;> omega

/-- Being near a word does not depend on how a quotient is written. -/
lemma Near.of_mul {word num den c : ℕ} (hc : 0 < c) (h : Near word (num * c) (den * c)) :
    Near word num den := by
  have h1 : den * c * unitsOf word = c * (den * unitsOf word) := by ring
  have h2 : den * c * 2 ^ scaleOf word = c * (den * 2 ^ scaleOf word) := by ring
  rcases h with ⟨hlow, hlow', hhigh, hhigh', hleast⟩
  rw [h1, h2, Nat.mul_comm num c] at *
  refine ⟨?_, ?_, ?_, ?_, ?_⟩
  · exact Nat.le_of_mul_le_mul_left (by linarith) hc
  · intro e
    exact hlow' (by linarith [congrArg (c * ·) e])
  · exact Nat.le_of_mul_le_mul_left (by linarith) hc
  · intro e
    exact hhigh' (by linarith [congrArg (c * ·) e])
  · intro hs hb
    exact Nat.le_of_mul_le_mul_left (by linarith [hleast hs hb]) hc

lemma decimalReadsBack_of_neighbour? {word : ℕ} {exponent : ℤ} {d : Decimal}
    (h : neighbour? word exponent = some d) : decimalReadsBack word d = true := by
  unfold neighbour? at h
  dsimp only at h
  split at h
  · cases h
  · rename_i hlow _
    cases h
    exact hlow
  · rename_i _ hhigh
    cases h
    exact hhigh
  · rename_i hlow hhigh
    split_ifs at h
    · cases h
      exact hlow
    · cases h
      exact hhigh

/-- The exact value as a decimal lies near the word. -/
lemma near_exactDecimal (word : ℕ) :
    Near word ((exactDecimal word).digits * unitsPerOne) (10 ^ (exactDecimal word).places) := by
  unfold exactDecimal unitsPerOne
  generalize 1074 = p
  have hten : unitsOf word * Nat.pow 5 p * Nat.pow 2 p = unitsOf word * 10 ^ p := by
    show unitsOf word * 5 ^ p * 2 ^ p = unitsOf word * (5 * 2) ^ p
    rw [Nat.mul_assoc, ← mul_pow]
  rw [hten]
  exact near_unitsOf (Nat.pow_pos (by decide))

/-- **The shortest decimal lies near the word**, its zeros at the end dropped. -/
lemma near_shortestDecimal (word : ℕ) :
    Near word ((shortestDecimal word).digits * unitsPerOne)
      (10 ^ (shortestDecimal word).places) := by
  set d := ((List.range 17).findSome? fun n =>
    neighbour? word (pointPosition (unitsOf word) - (n + 1 : Nat))).getD (exactDecimal word) with hd
  have hnear : Near word (d.digits * unitsPerOne) (10 ^ d.places) := by
    cases hfound : (List.range 17).findSome? fun n =>
        neighbour? word (pointPosition (unitsOf word) - (n + 1 : Nat)) with
    | none =>
      rw [hfound] at hd
      rw [hd]
      exact near_exactDecimal word
    | some d' =>
      rw [hfound] at hd
      rcases List.exists_of_findSome?_eq_some hfound with ⟨n, _, hn⟩
      rw [hd]
      exact near_of_readsBack (decimalReadsBack_of_neighbour? hn)
  rcases Decimal.exists_trim d.digits d.places with ⟨j, hplaces, hdigits⟩
  have hshort : shortestDecimal word = Decimal.trim d.digits d.places := rfl
  rw [hshort]
  refine Near.of_mul (c := 10 ^ j) (Nat.pow_pos (by decide)) ?_
  rw [← pow_add, ← hplaces, Nat.mul_right_comm, ← hdigits]
  exact hnear

/-- No whole number but the value itself lies near a word. -/
lemma unitsOf_mod_of_near {word n : ℕ} (h : Near word (n * unitsPerOne) 1) :
    unitsOf word % unitsPerOne = 0 := by
  have hvalue : unitsOf word = significandOf word * 2 ^ scaleOf word := rfl
  unfold unitsPerOne at h ⊢
  generalize 1074 = p at h ⊢
  rw [show Nat.pow 2 p = 2 ^ p from rfl] at h ⊢
  rcases Nat.lt_or_ge (scaleOf word) p with hlt | hge
  · -- both are whole numbers of steps, and they are at most half a step apart
    obtain ⟨j, rfl⟩ : ∃ j, p = scaleOf word + j := ⟨p - scaleOf word, by omega⟩
    rcases h with ⟨hlow, _, hhigh, _, _⟩
    rw [hvalue, Nat.pow_add, Nat.one_mul, Nat.one_mul] at hlow hhigh
    rw [hvalue, Nat.pow_add]
    set s := 2 ^ scaleOf word with hs
    have hspos : 0 < s := Nat.two_pow_pos _
    have hle : s * (2 * significandOf word) ≤ s * (2 * (n * 2 ^ j) + 1) := by nlinarith
    have hge : s * (2 * (n * 2 ^ j)) ≤ s * (2 * significandOf word + 1) := by nlinarith
    have h1 := Nat.le_of_mul_le_mul_left hle hspos
    have h2 := Nat.le_of_mul_le_mul_left hge hspos
    have heq : significandOf word = n * 2 ^ j := by omega
    rw [heq, Nat.mul_assoc, Nat.mul_comm (2 ^ j) s]
    exact Nat.mul_mod_left _ _
  · rw [hvalue]
    exact Nat.mod_eq_zero_of_dvd (Dvd.dvd.mul_left (pow_dvd_pow 2 hge) _)

/-- A number with a fractional part has a decimal with places. -/
lemma places_shortestDecimal_ne_zero {word : ℕ} (h : unitsOf word % unitsPerOne ≠ 0) :
    (shortestDecimal word).places ≠ 0 := by
  intro h0
  have hnear := near_shortestDecimal word
  rw [h0, pow_zero] at hnear
  exact h (unitsOf_mod_of_near hnear)

/-! ## Literals -/

lemma bits_eq (x : Binary64) :
    (if x.isNegative then signWord + x.magnitudeWord else x.magnitudeWord) = x.bits.toNat := by
  have hlt : x.bits.toNat < 2 * signWord := x.bits.toNat_lt
  simp only [isNegative, magnitudeWord]
  by_cases h : signWord ≤ x.bits.toNat
  · rw [Nat.mod_eq_sub_mod h, Nat.mod_eq_of_lt (by omega)]
    simp [h]
  · rw [Nat.mod_eq_of_lt (by omega)]
    simp [h]

/-- What lies near the word of a finite number is read as that number. -/
lemma nearest_eq {x : Binary64} {num den : ℕ} (hx : x.isFinite = true) (hden : 0 < den)
    (h : Near x.magnitudeWord num den) : nearest x.isNegative num den = x := by
  have hle : x.magnitudeWord ≤ infinityWord := by
    have : x.magnitudeWord < infinityWord := by simpa [isFinite] using hx
    omega
  unfold nearest
  dsimp only
  rw [nearestWord_eq_of_near hden h, Nat.min_eq_left hle, bits_eq, UInt64.ofNat_toNat]

/-- Digits that stand for a decimal near a finite number are read as that number. -/
lemma floatCell?_eq {x : Binary64} {whole places : List Char} (hx : x.isFinite = true)
    (h : Near x.magnitudeWord (digitsValue (whole ++ places) * unitsPerOne)
      (10 ^ places.length)) :
    floatCell? x.isNegative whole places = some (.float x) := by
  have hread : ofDecimal x.isNegative (digitsValue (whole ++ places)) places.length = x :=
    nearest_eq hx (Nat.pow_pos (by decide)) h
  simp only [floatCell?, hread, hx, if_true]

/-- **A finite literal reads back**: it is written as digits on both sides of a point, and these
digits stand for the number. -/
theorem exists_numeral_literalChars {x : Binary64} (hx : x.isFinite = true) :
    ∃ whole places, x.literalChars = numberChars x.isNegative whole places
      ∧ whole ≠ [] ∧ (∀ c ∈ whole, isDigit c) ∧ places ≠ [] ∧ (∀ c ∈ places, isDigit c)
      ∧ floatCell? x.isNegative whole places = some (.float x) := by
  have hsigned : ∀ whole places : List Char, places ≠ [] →
      x.signed (whole ++ '.' :: places) = numberChars x.isNegative whole places := by
    intro whole places hp
    cases hn : x.isNegative <;> simp [signed, numberChars, hn, hp]
  by_cases hint : x.isIntegral = true
  · have hmod : x.magnitude % unitsPerOne = 0 := by
      simpa [isIntegral, hx] using hint
    refine ⟨Decimal.digitsOf (x.magnitude / unitsPerOne), ['0'], ?_, Decimal.digitsOf_ne_nil _,
      Decimal.all_isDigit_digitsOf _, by simp, fun c hc => ?_, ?_⟩
    · rw [← hsigned _ _ (by simp), literalChars, if_pos hint]
    · rw [List.mem_singleton.1 hc]
      decide
    · refine floatCell?_eq hx ?_
      have hvalue : digitsValue (Decimal.digitsOf (x.magnitude / unitsPerOne) ++ ['0'])
          = 10 * (x.magnitude / unitsPerOne) := by
        rw [Decimal.digitsValue_eq_ofDigitChars, Nat.ofDigitChars_append,
          ← Decimal.digitsValue_eq_ofDigitChars, Decimal.digitsValue_digitsOf]
        simp [Nat.ofDigitChars_cons]
      have hunits : 10 * (x.magnitude / unitsPerOne) * unitsPerOne
          = unitsOf x.magnitudeWord * 10 := by
        rw [Nat.mul_assoc, Nat.div_mul_cancel (Nat.dvd_of_mod_eq_zero hmod), Nat.mul_comm]
        rfl
      rw [hvalue, hunits]
      exact near_unitsOf (by decide)
  · have hfrac : unitsOf x.magnitudeWord % unitsPerOne ≠ 0 := by
      intro h0
      apply hint
      simp only [isIntegral, hx, magnitude, h0, beq_self_eq_true, Bool.and_self]
    have hnan : x.isNaN = false := by
      have : x.magnitudeWord < infinityWord := by simpa [isFinite] using hx
      simp only [isNaN, decide_eq_false_iff_not]
      omega
    have hzero : x.magnitudeWord ≠ 0 := by
      intro h0
      rw [h0] at hfrac
      have : unitsOf 0 = 0 := Nat.zero_mul _
      exact hfrac (by rw [this, Nat.zero_mod])
    obtain ⟨whole, places, hchars, hwhole, hwd, hpd, hlen, hvalue⟩ :=
      Decimal.exists_chars (shortestDecimal x.magnitudeWord) (places_shortestDecimal_ne_zero hfrac)
    have hplaces : places ≠ [] := by
      rintro rfl
      exact places_shortestDecimal_ne_zero hfrac hlen.symm
    refine ⟨whole, places, ?_, hwhole, hwd, hplaces, hpd, ?_⟩
    · rw [← hsigned _ _ hplaces, ← hchars, literalChars, if_neg hint, chars,
        if_neg (by simp [hnan]), if_pos hx, if_neg hzero]
    · refine floatCell?_eq hx ?_
      rw [hvalue, hlen]
      exact near_shortestDecimal _

end Binary64

end LinkedTables
