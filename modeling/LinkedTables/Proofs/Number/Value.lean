import Mathlib
import LinkedTables.Proofs.Number.Rounding

/-!
# The number that a word denotes

`Binary64.value?` reads a word field by field, as a rational number or as an infinity, and this file
ties it to the integers that the library computes with.

* **Words are in order.**  From one word to the next the number of units grows by one step
  (`unitsOf_succ`), so a word with its sign (`position`) says where its number stands.
* **Units.**  A finite number is its number of units (`value?_of_isFinite`).
* **The order of numbers** is that of their words (`value_lt_iff`), so only the two zeros are one
  number (`eq_of_value?_eq`), and `Binary64.compare?` answers with it (`compare?_eq`).
-/

namespace LinkedTables.Binary64

/-! ## Words in order -/

lemma unitsOf_eq (word : ℕ) : unitsOf word = significandOf word * 2 ^ scaleOf word := rfl

/-- From one word to the next is one step of its exponent. -/
lemma unitsOf_succ (word : ℕ) : unitsOf (word + 1) = unitsOf word + 2 ^ scaleOf word := by
  have hcases : (scaleOf (word + 1) = scaleOf word
        ∧ significandOf (word + 1) = significandOf word + 1)
      ∨ (scaleOf (word + 1) = scaleOf word + 1 ∧ significandOf (word + 1) = binade
        ∧ significandOf word + 1 = 2 * binade) := by
    have hbinade : binade = 0x10000000000000 := rfl
    simp only [scaleOf, significandOf, hbinade]
    rcases Nat.lt_trichotomy (word + 1) 0x10000000000000 with h | h | h
    · rw [if_pos h, if_pos (by omega)]
      omega
    · rw [if_neg (by omega), if_pos (by omega)]
      omega
    · rw [if_neg (by omega), if_neg (by omega)]
      omega
  rw [unitsOf_eq, unitsOf_eq]
  rcases hcases with ⟨hscale, hsig⟩ | ⟨hscale, hsig, hlast⟩
  · rw [hscale, hsig, Nat.succ_mul]
  · rw [hscale, hsig, Nat.pow_succ, ← Nat.succ_mul, Nat.succ_eq_add_one, hlast]
    ring

lemma strictMono_unitsOf : StrictMono unitsOf := by
  refine strictMono_nat_of_lt_succ fun word => ?_
  rw [unitsOf_succ]
  exact Nat.lt_add_of_pos_right (Nat.two_pow_pos _)

lemma unitsOf_zero : unitsOf 0 = 0 := by
  decide

lemma isNegative_iff {x : Binary64} : x.isNegative = true ↔ signWord ≤ x.bits.toNat := by
  simp [isNegative]

/-- The word with its sign, as a place in the order of the numbers. -/
def position (x : Binary64) : ℤ := if x.isNegative then -x.magnitudeWord else x.magnitudeWord

lemma units_lt_iff {x y : Binary64} : x.units < y.units ↔ x.position < y.position := by
  have hlt : x.magnitude < y.magnitude ↔ x.magnitudeWord < y.magnitudeWord :=
    strictMono_unitsOf.lt_iff_lt
  have hgt : y.magnitude < x.magnitude ↔ y.magnitudeWord < x.magnitudeWord :=
    strictMono_unitsOf.lt_iff_lt
  have hx : x.magnitude = 0 ↔ x.magnitudeWord = 0 :=
    strictMono_unitsOf.injective.eq_iff' unitsOf_zero
  have hy : y.magnitude = 0 ↔ y.magnitudeWord = 0 :=
    strictMono_unitsOf.injective.eq_iff' unitsOf_zero
  simp only [units, position]
  split_ifs <;> omega

/-- Different words at one place are the two zeros. -/
lemma eq_of_position_eq {x y : Binary64} (h : x.position = y.position) (hx : x.position ≠ 0) :
    x = y := by
  have hlt := x.bits.toNat_lt
  have hlt' := y.bits.toNat_lt
  have hbits : x.bits.toNat = y.bits.toNat := by
    simp only [position, isNegative_iff, magnitudeWord, signWord] at h hx
    split_ifs at h hx <;> omega
  cases x with
  | mk b => exact congrArg mk (UInt64.toNat_inj.1 hbits)

lemma exists_position {p : ℤ} (h : p.natAbs < 2 ^ 63) : ∃ x : Binary64, x.position = p := by
  refine ⟨⟨UInt64.ofNat (if p < 0 then signWord + p.natAbs else p.natAbs)⟩, ?_⟩
  simp only [position, isNegative_iff, magnitudeWord, signWord, UInt64.toNat_ofNat']
  split_ifs <;> omega

/-- The last bit of a word is that of its place. -/
lemma position_emod_two (x : Binary64) : x.position % 2 = (x.bits.toNat % 2 : ℕ) := by
  simp only [position, magnitudeWord, signWord]
  split_ifs <;> omega

/-! ## What a word denotes -/

/-- The number that a word denotes, which may be an infinity.  Behind the sign stand an exponent of
eleven bits and a fraction of 52 bits.  The least exponent is that of the multiples of the least
positive number, and the greatest one that of the infinities and of what is no number. -/
def value? (x : Binary64) : Option (WithBotTop ℚ) :=
  let word : ℕ := x.bits.toNat
  let negative := 2 ^ 63 ≤ word
  let exponent : ℕ := word / 2 ^ 52 % 2 ^ 11
  let fraction : ℕ := word % 2 ^ 52
  if exponent = 2047 then
    if fraction = 0 then some (if negative then ⊥ else ⊤) else none
  else
    let size : ℚ :=
      if exponent = 0 then fraction * 2 ^ (-1074 : ℤ)
      else (2 ^ 52 + fraction) * 2 ^ ((exponent : ℤ) - 1075)
    some ↑(if negative then -size else size)

/-- The least positive number. -/
def unit : ℚ := 2 ^ (-1074 : ℤ)

lemma unit_pos : 0 < unit := zpow_pos two_pos _

lemma unitsPerOne_mul_unit : (unitsPerOne : ℚ) * unit = 1 := by
  have hpow : ∀ k : ℕ, ((Nat.pow 2 k : ℕ) : ℚ) * 2 ^ (-k : ℤ) = 1 := by
    intro k
    rw [Nat.pow_eq, Nat.cast_pow, zpow_neg, zpow_natCast]
    exact mul_inv_cancel₀ (pow_ne_zero k two_ne_zero)
  exact hpow 1074

/-- The fields of a word without its sign give its number of units. -/
lemma size_eq (word : ℕ) :
    (if word / 2 ^ 52 = 0 then ((word % 2 ^ 52 : ℕ) : ℚ) * 2 ^ (-1074 : ℤ)
      else (2 ^ 52 + (word % 2 ^ 52 : ℕ)) * 2 ^ (((word / 2 ^ 52 : ℕ) : ℤ) - 1075))
      = unitsOf word * unit := by
  have hbinade : binade = 2 ^ 52 := by decide
  rw [unitsOf_eq, scaleOf, significandOf, hbinade, unit]
  by_cases hleast : word / 2 ^ 52 = 0
  · have hlt : word < 2 ^ 52 := by omega
    rw [if_pos hleast, if_pos hlt, hleast, Nat.mod_eq_of_lt hlt, Nat.zero_sub, pow_zero, mul_one]
  · have hge : ¬ word < 2 ^ 52 := by omega
    obtain ⟨k, hk⟩ := Nat.exists_eq_succ_of_ne_zero hleast
    have hexp : (2 : ℚ) ^ (((k + 1 : ℕ) : ℤ) - 1075) = 2 ^ k * 2 ^ (-1074 : ℤ) := by
      rw [← zpow_natCast, ← zpow_add₀ two_ne_zero]
      congr 1
      push_cast
      ring
    rw [if_neg hleast, if_neg hge, hk, Nat.succ_eq_add_one, hexp, Nat.add_sub_cancel]
    generalize (2 : ℚ) ^ (-1074 : ℤ) = u
    push_cast
    ring

lemma isFinite_iff {x : Binary64} : x.isFinite = true ↔ x.magnitudeWord < infinityWord := by
  simp [isFinite]

lemma isNaN_iff {x : Binary64} : x.isNaN = true ↔ infinityWord < x.magnitudeWord := by
  simp [isNaN]

/-- A finite number is its number of units, each the least positive number. -/
lemma value?_of_isFinite {x : Binary64} (h : x.isFinite = true) :
    x.value? = some ↑((x.units : ℚ) * unit) := by
  have hlt := x.bits.toNat_lt
  have hfinite := isFinite_iff.1 h
  simp only [infinityWord, binade, magnitudeWord, signWord] at hfinite
  have hexponent : x.bits.toNat / 2 ^ 52 % 2 ^ 11 = x.magnitudeWord / 2 ^ 52 := by
    simp only [magnitudeWord, signWord]
    omega
  have hfraction : x.bits.toNat % 2 ^ 52 = x.magnitudeWord % 2 ^ 52 := by
    simp only [magnitudeWord, signWord]
    omega
  have hne : x.magnitudeWord / 2 ^ 52 ≠ 2047 := by
    simp only [magnitudeWord, signWord]
    omega
  have hsign : 2 ^ 63 ≤ x.bits.toNat ↔ x.isNegative = true := isNegative_iff.symm
  simp only [value?, hexponent, hfraction, if_neg hne, size_eq, hsign, units, magnitude]
  split_ifs
  · simp [neg_mul]
  · simp

lemma value?_of_not_isFinite {x : Binary64} (h : ¬ x.isFinite = true) :
    x.value? = if x.isNaN then none else some (if x.isNegative then ⊥ else ⊤) := by
  have hlt := x.bits.toNat_lt
  have hge := mt isFinite_iff.2 h
  simp only [infinityWord, binade, magnitudeWord, signWord] at hge
  have hnan : x.isNaN = true ↔ ¬ x.bits.toNat % 2 ^ 52 = 0 := by
    rw [isNaN_iff]
    simp only [infinityWord, binade, magnitudeWord, signWord]
    omega
  have hexponent : x.bits.toNat / 2 ^ 52 % 2 ^ 11 = 2047 := by
    omega
  have hsign : 2 ^ 63 ≤ x.bits.toNat ↔ x.isNegative = true := isNegative_iff.symm
  simp only [value?, hexponent, if_true, hsign, hnan]
  split_ifs <;> rfl

/-- What is no number denotes none, and every other word denotes one. -/
lemma value?_eq_none_iff {x : Binary64} : x.value? = none ↔ x.isNaN = true := by
  by_cases hfinite : x.isFinite = true
  · have hnan : ¬ x.isNaN = true := by
      rw [isNaN_iff]
      rw [isFinite_iff] at hfinite
      omega
    simp [value?_of_isFinite hfinite, hnan]
  · simp [value?_of_not_isFinite hfinite]

lemma not_isNaN_of_value? {x : Binary64} {p : WithBotTop ℚ} (h : x.value? = some p) :
    ¬ x.isNaN = true := by
  simp [← value?_eq_none_iff, h]

/-- An infinity stands at the end of all numbers. -/
lemma position_of_not_isFinite {x : Binary64} (h : ¬ x.isFinite = true) (hnan : ¬ x.isNaN = true) :
    x.position = if x.isNegative then -(infinityWord : ℤ) else infinityWord := by
  rw [isFinite_iff] at h
  rw [isNaN_iff] at hnan
  rw [position, le_antisymm (not_lt.1 hnan) (not_lt.1 h)]

lemma position_of_isFinite {x : Binary64} (h : x.isFinite = true) :
    -(infinityWord : ℤ) < x.position ∧ x.position < infinityWord := by
  rw [isFinite_iff] at h
  simp only [position]
  split_ifs <;> omega

/-- **Numbers are in the order of their words.** -/
theorem value_lt_iff {x y : Binary64} {p q : WithBotTop ℚ} (hx : x.value? = some p)
    (hy : y.value? = some q) : p < q ↔ x.position < y.position := by
  have hxnan := not_isNaN_of_value? hx
  have hynan := not_isNaN_of_value? hy
  by_cases hxf : x.isFinite = true <;> by_cases hyf : y.isFinite = true
  · rw [value?_of_isFinite hxf, Option.some_inj] at hx
    rw [value?_of_isFinite hyf, Option.some_inj] at hy
    rw [← hx, ← hy, WithBotTop.coe_lt_coe, mul_lt_mul_iff_left₀ unit_pos, Int.cast_lt,
      units_lt_iff]
  · have hposition := position_of_isFinite hxf
    rw [position_of_not_isFinite hyf hynan]
    rw [value?_of_isFinite hxf, Option.some_inj] at hx
    rw [value?_of_not_isFinite hyf, if_neg hynan, Option.some_inj] at hy
    subst hx hy
    split_ifs
    · simp only [not_lt_bot, false_iff]
      omega
    · simp only [hposition.2, iff_true]
      exact WithBot.coe_lt_coe.2 (WithTop.coe_lt_top _)
  · have hposition := position_of_isFinite hyf
    rw [position_of_not_isFinite hxf hxnan]
    rw [value?_of_isFinite hyf, Option.some_inj] at hy
    rw [value?_of_not_isFinite hxf, if_neg hxnan, Option.some_inj] at hx
    subst hx hy
    split_ifs
    · simp only [hposition.1, iff_true]
      exact WithBot.bot_lt_coe _
    · simp only [not_top_lt, false_iff]
      omega
  · rw [position_of_not_isFinite hxf hxnan, position_of_not_isFinite hyf hynan]
    rw [value?_of_not_isFinite hxf, if_neg hxnan, Option.some_inj] at hx
    rw [value?_of_not_isFinite hyf, if_neg hynan, Option.some_inj] at hy
    have hpos : 0 < infinityWord := by decide
    subst hx hy
    split_ifs <;> simp [hpos]

lemma value_eq_iff {x y : Binary64} {p q : WithBotTop ℚ} (hx : x.value? = some p)
    (hy : y.value? = some q) : p = q ↔ x.position = y.position := by
  have hlt := value_lt_iff hx hy
  have hgt := value_lt_iff hy hx
  rcases lt_trichotomy p q with h | h | h
  · have := hlt.1 h
    exact iff_of_false h.ne (by omega)
  · have hge : ¬ p < q ∧ ¬ q < p := by simp [h]
    rw [hlt, hgt] at hge
    exact iff_of_true h (by omega)
  · have := hgt.1 h
    exact iff_of_false h.ne' (by omega)

/-- **Different words of one number** are those of zero. -/
lemma eq_of_value?_eq {x y : Binary64} {p : WithBotTop ℚ} (hx : x.value? = some p)
    (hy : y.value? = some p) (hp : p ≠ ((0 : ℚ) : WithBotTop ℚ)) : x = y := by
  refine eq_of_position_eq ((value_eq_iff hx hy).1 rfl) fun hzero => hp ?_
  have hword : x.magnitudeWord = 0 := by
    simp only [position] at hzero
    split_ifs at hzero <;> omega
  have hfinite : x.isFinite = true := isFinite_iff.2 (by rw [hword]; decide)
  have hunits : x.units = 0 := by
    simp [units, magnitude, hword, unitsOf_zero]
  rw [value?_of_isFinite hfinite, hunits, Option.some_inj] at hx
  simpa using hx.symm

/-- A finite number is a rational one. -/
lemma value?_eq_coe_iff {x : Binary64} {q : ℚ} :
    x.value? = some (q : WithBotTop ℚ) ↔ x.isFinite = true ∧ x.units * unit = q := by
  by_cases hfinite : x.isFinite = true
  · rw [value?_of_isFinite hfinite, Option.some_inj, WithBotTop.coe_injective.eq_iff]
    exact (and_iff_right hfinite).symm
  · rw [value?_of_not_isFinite hfinite]
    have hbot := (WithBotTop.coe_ne_bot q).symm
    have htop := (WithBotTop.coe_ne_top q).symm
    split_ifs <;> simp [hfinite, hbot, htop]

/-- An integer that a word denotes is counted in units. -/
lemma value?_eq_intCast_iff {x : Binary64} {n : ℤ} :
    x.value? = some ((n : ℚ) : WithBotTop ℚ) ↔ x.isFinite = true ∧ x.units = n * unitsPerOne := by
  have hscale : (n : ℚ) = (n * unitsPerOne : ℤ) * unit := by
    rw [Int.cast_mul, Int.cast_natCast, mul_assoc, unitsPerOne_mul_unit, mul_one]
  rw [value?_eq_coe_iff, hscale, mul_left_inj' unit_pos.ne', Int.cast_inj]

/-- Two comparisons that agree on what is less agree. -/
lemma compare_eq_compare {α β : Type} [LinearOrder α] [LinearOrder β] {a b : α} {c d : β}
    (hlt : a < b ↔ c < d) (hgt : b < a ↔ d < c) : compare a b = compare c d := by
  rcases lt_trichotomy a b with h | h | h
  · rw [compare_lt_iff_lt.2 h, compare_lt_iff_lt.2 (hlt.1 h)]
  · have hge : ¬ a < b ∧ ¬ b < a := by simp [h]
    rw [hlt, hgt, not_lt, not_lt] at hge
    rw [compare_eq_iff_eq.2 h, compare_eq_iff_eq.2 (le_antisymm hge.2 hge.1)]
  · rw [compare_gt_iff_gt.2 h, compare_gt_iff_gt.2 (hgt.1 h)]

/-- **Floating-point numbers are compared by what they denote.** -/
theorem compare?_eq {x y : Binary64} {p q : WithBotTop ℚ} (hx : x.value? = some p)
    (hy : y.value? = some q) : x.compare? y = some (compare p q) := by
  have hxnan := not_isNaN_of_value? hx
  have hynan := not_isNaN_of_value? hy
  rw [compare?, if_neg (by simp [hxnan, hynan]), Option.some_inj]
  refine compare_eq_compare ?_ ?_
  · rw [units_lt_iff, value_lt_iff hx hy]
  · rw [units_lt_iff, value_lt_iff hy hx]

end LinkedTables.Binary64
