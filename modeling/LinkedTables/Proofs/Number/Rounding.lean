import Mathlib
import LinkedTables.Number.Decimal

/-!
# Rounding undoes the interval that reads back

`Binary64.readsBack word num den` says that `num / den` units lie in the interval around a word
whose numbers are supposed to read back to it, and `Binary64.nearestWord num den` is the word that
reading actually gives.  The main statement of this file is that the two agree:
**`nearestWord_eq_of_readsBack`**.

A word is `scale * binade + significand`, and the significand has 53 bits unless the scale is zero.
So the rounded quotient by `2 ^ scale` has to be the significand, and the shift that rounding
chooses has to be the scale.  Both follow from the interval, except just below a power of two: there
the shift is one less, the quotient rounds up to `2 ^ 53`, and the carry makes up for it.
-/

namespace LinkedTables.Binary64

/-! ## Rounded quotients -/

/-- A quotient within one half of `m` rounds to `m`; at a distance of exactly one half `m` has to be
even. -/
lemma roundDiv_eq {num den m : ℕ} (hden : 0 < den)
    (hlow : 2 * (den * m) ≤ 2 * num + den) (hhigh : 2 * num ≤ 2 * (den * m) + den)
    (hlow' : 2 * (den * m) = 2 * num + den → m % 2 = 0)
    (hhigh' : 2 * num = 2 * (den * m) + den → m % 2 = 0) :
    roundDiv num den = m := by
  have hdiv : den * (num / den) + num % den = num := Nat.div_add_mod num den
  have hmod : num % den < den := Nat.mod_lt _ hden
  -- the quotient is `m` or one less, since everything else is more than a half away
  have hq : num / den = m ∨ num / den + 1 = m := by
    rcases Nat.lt_trichotomy (num / den) m with h | h | h
    · right
      by_contra hne
      have h2 : den * (num / den + 2) ≤ den * m := Nat.mul_le_mul_left den (by omega)
      rw [Nat.mul_add] at h2
      omega
    · exact Or.inl h
    · have h2 : den * (m + 1) ≤ den * (num / den) := Nat.mul_le_mul_left den h
      rw [Nat.mul_add] at h2
      omega
  unfold roundDiv
  rcases hq with h | h
  · rw [h] at hdiv
    dsimp only
    rcases Nat.lt_trichotomy (2 * (num % den)) den with hc | hc | hc
    · rw [Nat.compare_eq_lt.2 hc]; exact h
    · rw [Nat.compare_eq_eq.2 hc]
      have heven := hhigh' (by omega)
      simp only [h, heven, if_true]
    · omega
  · have h2 : den * (num / den) + den = den * m := by rw [← h, Nat.mul_add, Nat.mul_one]
    dsimp only
    rcases Nat.lt_trichotomy (2 * (num % den)) den with hc | hc | hc
    · omega
    · rw [Nat.compare_eq_eq.2 hc]
      have heven := hlow' (by omega)
      have hodd : ¬ (num / den) % 2 = 0 := by omega
      simp only [hodd, if_false, h]
    · rw [Nat.compare_eq_gt.2 hc]; exact h

/-! ## The two parts of a word -/

lemma scaleOf_mul_add_significandOf (word : ℕ) :
    scaleOf word * binade + significandOf word = word := by
  simp only [scaleOf, significandOf]
  have hdiv := Nat.div_add_mod word binade
  split_ifs with h
  · rw [Nat.div_eq_of_lt h]
    omega
  · have hpos : 1 ≤ word / binade := (Nat.one_le_div_iff (by decide)).2 (by omega)
    rw [Nat.sub_mul, Nat.one_mul]
    have : binade ≤ word / binade * binade := Nat.le_mul_of_pos_left _ hpos
    rw [Nat.mul_comm] at hdiv
    omega

lemma significandOf_lt (word : ℕ) : significandOf word < 2 * binade := by
  simp only [significandOf]
  have hmod : word % binade < binade := Nat.mod_lt _ (by decide)
  split_ifs with h <;> omega

lemma scaleOf_eq_zero_or_le (word : ℕ) : scaleOf word = 0 ∨ binade ≤ significandOf word := by
  simp only [scaleOf, significandOf]
  split_ifs with h
  · exact Or.inl (by rw [Nat.div_eq_of_lt h])
  · exact Or.inr (by omega)

/-- The least significand of a binade, where the numbers below lie twice as close. -/
lemma scaleOf_pos_and_significandOf_eq_iff (word : ℕ) :
    (word % binade = 0 ∧ binade < word) ↔ 0 < scaleOf word ∧ significandOf word = binade := by
  have hw := scaleOf_mul_add_significandOf word
  have hlt := significandOf_lt word
  constructor
  · rintro ⟨hmod, hlt'⟩
    have hsig : significandOf word = binade := by
      simp only [significandOf]
      rw [if_neg (by omega), hmod]
      rfl
    refine ⟨?_, hsig⟩
    by_contra h0
    rw [Nat.eq_zero_of_not_pos h0] at hw
    omega
  · rintro ⟨hpos, hsig⟩
    rw [hsig] at hw
    refine ⟨?_, ?_⟩
    · rw [← hw]
      simp
    · have : binade ≤ scaleOf word * binade := Nat.le_mul_of_pos_left _ hpos
      have : 0 < binade := by decide
      omega

/-! ## The interval that reads back

The ends of the interval are given in quarters of a unit.  What rounding needs of them is that
`num / den` lies within half a step of the significand, counted in steps, and within a quarter of a
step below the least significand of a binade.
-/

/-- `num / den` lies within half a step of the value of a word. -/
structure Near (word num den : ℕ) : Prop where
  low : 2 * (den * unitsOf word) ≤ 2 * num + den * 2 ^ scaleOf word
  low_even : 2 * (den * unitsOf word) = 2 * num + den * 2 ^ scaleOf word → word % 2 = 0
  high : 2 * num ≤ 2 * (den * unitsOf word) + den * 2 ^ scaleOf word
  high_even : 2 * num = 2 * (den * unitsOf word) + den * 2 ^ scaleOf word → word % 2 = 0
  /-- the step is half as wide below the least significand of a binade -/
  low_least : 0 < scaleOf word → significandOf word = binade →
    4 * (den * unitsOf word) ≤ 4 * num + den * 2 ^ scaleOf word

lemma near_of_readsBack {word num den : ℕ} (h : readsBack word num den = true) :
    Near word num den := by
  have hpow : Nat.pow 2 (scaleOf word) = 2 ^ scaleOf word := rfl
  have hbinade : binade % 2 = 0 := by decide
  have heven : word % binade = 0 → word % 2 = 0 := fun h0 => by
    have := Nat.mod_mod_of_dvd word (Nat.dvd_of_mod_eq_zero hbinade)
    rw [h0] at this
    omega
  have hleast := scaleOf_pos_and_significandOf_eq_iff word
  rw [readsBack, lowerEnd, upperEnd] at h
  rw [hpow] at h
  have hunits : 4 * unitsOf word * den = 4 * (den * unitsOf word) := by ring
  have htwo : 2 * 2 ^ scaleOf word * den = 2 * (den * 2 ^ scaleOf word) := by ring
  have hone : 2 ^ scaleOf word * den = den * 2 ^ scaleOf word := Nat.mul_comm _ _
  -- both ends are inside for an even word and outside for an odd one
  by_cases hc : word % binade = 0 ∧ binade < word
  · simp only [hc, decide_true, Bool.and_true, if_true, heven hc.1,
      Nat.sub_mul, Nat.add_mul, hunits, htwo, hone, Bool.and_eq_true, decide_eq_true_eq] at h
    exact ⟨by omega, fun _ => heven hc.1, by omega, fun _ => heven hc.1, fun _ _ => by omega⟩
  · have hc' : ¬ (0 < scaleOf word ∧ significandOf word = binade) := fun h' => hc (hleast.2 h')
    have hdec : (decide (word % binade = 0) && decide (binade < word)) = false := by
      simpa using hc
    simp only [hdec, Bool.false_eq_true, if_false, Nat.sub_mul, Nat.add_mul, hunits, htwo] at h
    split_ifs at h with hw
    · simp only [Bool.and_eq_true, decide_eq_true_eq] at h
      exact ⟨by omega, fun _ => hw, by omega, fun _ => hw, fun h1 h2 => absurd ⟨h1, h2⟩ hc'⟩
    · simp only [Bool.and_eq_true, decide_eq_true_eq] at h
      exact ⟨by omega, fun _ => by omega, by omega, fun _ => by omega,
        fun h1 h2 => absurd ⟨h1, h2⟩ hc'⟩

/-! ## The shift that rounding chooses -/

lemma shiftFor_le {num den j : ℕ} (h : num < den * 2 ^ (53 + j)) : shiftFor num den ≤ j := by
  simp only [shiftFor]
  by_cases h0 : num / den = 0
  · simp [h0]
  · have hlt : num / den < 2 ^ (53 + j) := Nat.div_lt_of_lt_mul h
    have := (Nat.log2_lt h0).2 hlt
    omega

lemma le_shiftFor {num den j : ℕ} (hden : 0 < den) (h : den * 2 ^ (52 + j) ≤ num) :
    j ≤ shiftFor num den := by
  simp only [shiftFor]
  have hle : 2 ^ (52 + j) ≤ num / den := (Nat.le_div_iff_mul_le hden).2 (by rwa [Nat.mul_comm])
  have h0 : num / den ≠ 0 := by
    have := Nat.two_pow_pos (52 + j)
    omega
  have := (Nat.le_log2 h0).2 hle
  omega

/-- **What lies near a word is rounded to it.** -/
theorem nearestWord_eq_of_near {word num den : ℕ} (hden : 0 < den) (h : Near word num den) :
    nearestWord num den = word := by
  rcases h with ⟨hlow, hlow', hhigh, hhigh', hleast⟩
  have hword := scaleOf_mul_add_significandOf word
  have hlt := significandOf_lt word
  have hbinade : binade = 2 ^ 52 := by decide
  set k := scaleOf word with hk
  set m := significandOf word with hm
  have hunits : den * unitsOf word = den * 2 ^ k * m := by
    show den * (m * Nat.pow 2 k) = _
    rw [show Nat.pow 2 k = 2 ^ k from rfl]
    ring
  have hparity : word % 2 = 0 → m % 2 = 0 := by
    intro hw
    have : k * binade % 2 = 0 := by rw [Nat.mul_mod, show binade % 2 = 0 by decide]; simp
    omega
  have hstep : 0 < den * 2 ^ k := Nat.mul_pos hden (Nat.two_pow_pos k)
  rw [hunits] at hlow hlow' hhigh hhigh' hleast
  have hpow : ∀ j, den * 2 ^ (j + k) = den * 2 ^ k * 2 ^ j := fun j => by
    rw [Nat.pow_add]; ring
  -- the shift cannot exceed the scale
  have hupper : num < den * 2 ^ (53 + k) := by
    have h1 : den * 2 ^ k * m + den * 2 ^ k ≤ den * 2 ^ k * 2 ^ 53 := by
      rw [← Nat.mul_succ]
      exact Nat.mul_le_mul_left _ (by omega)
    rw [hpow 53]
    omega
  have hle : shiftFor num den ≤ k := shiftFor_le hupper
  unfold nearestWord
  by_cases hshift : shiftFor num den = k
  · -- the ordinary case: the quotient by the step rounds to the significand
    have hround : roundDiv num (den * 2 ^ k) = m :=
      roundDiv_eq hstep hlow hhigh (fun e => hparity (hlow' e)) (fun e => hparity (hhigh' e))
    dsimp only
    rw [hshift, show Nat.pow 2 k = 2 ^ k from rfl, hround]
    exact hword
  · -- just below the least significand of a binade: the quotient rounds up to `2 ^ 53`
    have hkpos : 0 < k := by omega
    have hmle : binade ≤ m := (scaleOf_eq_zero_or_le word).resolve_left (by omega)
    have hbelow : num < den * 2 ^ (52 + k) := by
      by_contra hge
      exact hshift (Nat.le_antisymm hle (le_shiftFor hden (by omega)))
    have hmeq : m = binade := by
      by_contra hne
      have h1 : den * 2 ^ k * (binade + 1) ≤ den * 2 ^ k * m := Nat.mul_le_mul_left _ (by omega)
      rw [hpow 52, ← hbinade] at hbelow
      rw [Nat.mul_add, Nat.mul_one] at h1
      omega
    obtain ⟨j, hj⟩ : ∃ j, k = j + 1 := ⟨k - 1, by omega⟩
    have hhalf : den * 2 ^ k = 2 * (den * 2 ^ j) := by rw [hj, Nat.pow_succ]; ring
    have hquarter := hleast hkpos hmeq
    rw [hmeq, hhalf, hbinade] at hquarter
    rw [hpow 52, hhalf] at hbelow
    have hjshift : shiftFor num den = j := by
      refine Nat.le_antisymm (by omega) (le_shiftFor hden ?_)
      have : den * 2 ^ (52 + j) = den * 2 ^ j * 2 ^ 52 := by rw [Nat.pow_add]; ring
      omega
    have hround : roundDiv num (den * 2 ^ j) = 2 ^ 53 := by
      refine roundDiv_eq (Nat.mul_pos hden (Nat.two_pow_pos j)) ?_ ?_ (fun _ => by decide)
        (fun _ => by decide) <;> omega
    dsimp only
    rw [hjshift, show Nat.pow 2 j = 2 ^ j from rfl, hround, ← hword, hj, hmeq, Nat.succ_mul]
    have : 2 ^ 53 = 2 * binade := by decide
    omega

/-- **The interval that reads back reads back.** -/
theorem nearestWord_eq_of_readsBack {word num den : ℕ} (hden : 0 < den)
    (h : readsBack word num den = true) : nearestWord num den = word :=
  nearestWord_eq_of_near hden (near_of_readsBack h)

end LinkedTables.Binary64
