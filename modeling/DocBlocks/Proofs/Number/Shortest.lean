import DocBlocks.Number.Shortest
import DocBlocks.Proofs.Number.Rounding
import Mathlib.Data.Nat.Cast.Order.Field
import Mathlib.Tactic.NormNum

/-!
# Shortest decimals read back

The decimal that a number of 64 bits is written with becomes this number again. The search tries the
digits that round back only, so whatever it finds is right; what has to be shown is that seventeen
digits always are enough.

## Main results

* `Binary.ofDecimal_eq_finite`: a decimal next to a number becomes this number.
* `readsBack_iff`: the comparison of integers that the search makes tells the values that become a
  number.
* `exists_withDigits?`: **seventeen digits are enough** for every number.
* `roundsTo_digits`: the decimal that is found becomes the number.
* `ofDecimal_digits`, `convert_normal`: so it does for a number of 32 bits, by way of 64.
-/

namespace DocBlocks

/-! ## Decimal digits -/

namespace Binary

variable {m n d : ℕ} {e g : ℤ} {v : ℚ}

/-- A number is below the power of ten that has more digits. -/
lemma lt_pow_length (n : ℕ) : n < 10 ^ (Nat.toDigits 10 n).length :=
  (Nat.length_toDigits_le_iff (by decide) Nat.length_toDigits_pos).mp le_rfl

/-- A positive number is not below the power of ten with as many digits. -/
lemma pow_length_le (hn : 0 < n) : 10 ^ ((Nat.toDigits 10 n).length - 1) ≤ n := by
  by_contra h
  rw [not_le] at h
  have hpos : 0 < (Nat.toDigits 10 n).length - 1 := by
    by_contra hzero
    rw [Nat.eq_zero_of_not_pos hzero, pow_zero] at h
    omega
  have := (Nat.length_toDigits_le_iff (by decide) hpos).mpr h
  omega

/-- A decimal lies between the powers of ten of its leading digit and of the one before. -/
lemma decimal_bounds (hd : 0 < d) (g : ℤ) :
    (10 : ℚ) ^ (g + (Nat.toDigits 10 d).length - 1) ≤ d * 10 ^ g ∧
      (d : ℚ) * 10 ^ g < 10 ^ (g + (Nat.toDigits 10 d).length) := by
  have hlength : 0 < (Nat.toDigits 10 d).length := Nat.length_toDigits_pos
  have hlow : (10 : ℚ) ^ ((Nat.toDigits 10 d).length - 1) ≤ d := by exact_mod_cast pow_length_le hd
  have hhigh : (d : ℚ) < 10 ^ (Nat.toDigits 10 d).length := by exact_mod_cast lt_pow_length d
  have hexp : g + (Nat.toDigits 10 d).length - 1 = ((Nat.toDigits 10 d).length - 1 : ℕ) + g := by omega
  constructor
  · rw [hexp, zpow_add₀ (by norm_num), zpow_natCast]
    gcongr
  · rw [add_comm, zpow_add₀ (by norm_num), zpow_natCast]
    gcongr

/-- Three binary digits are less than a decimal one. -/
lemma two_zpow_lt_ten_zpow {k : ℤ} (hn : n ≠ 0) (hk : k ≤ 3 * n) : (2 : ℚ) ^ k < 10 ^ (n : ℤ) := by
  calc (2 : ℚ) ^ k ≤ 2 ^ ((3 * n : ℕ) : ℤ) := zpow_le_zpow_right₀ one_le_two (by push_cast; exact hk)
    _ = (2 ^ 3) ^ n := by rw [zpow_natCast, pow_mul]
    _ < 10 ^ n := pow_lt_pow_left₀ (by norm_num) (by norm_num) hn
    _ = 10 ^ (n : ℤ) := (zpow_natCast _ _).symm

/-- The values that become a number of 64 bits are far from the ends at which decimals are cut
off. -/
lemma RoundsTo.bounds (h : RoundsTo double m e v) (hm : 0 < m) (hfits : Fits double m e) :
    (10 : ℚ) ^ (-401 : ℤ) < v ∧ v < 10 ^ (400 : ℤ) := by
  have hunit : (0 : ℚ) < 2 ^ e := by positivity
  have hone : (1 : ℚ) ≤ m := by exact_mod_cast hm
  have hlt : (m : ℚ) + 1 ≤ 2 ^ 53 := by exact_mod_cast hfits.lt
  constructor
  · calc (10 : ℚ) ^ (-401 : ℤ) < 2 ^ (-1075 : ℤ) := by
          rw [zpow_neg, zpow_neg]
          exact inv_strictAnti₀ (by positivity) (two_zpow_lt_ten_zpow (n := 401) (by norm_num) (by norm_num))
      _ = 1 / 2 * 2 ^ (-1074 : ℤ) := by
          rw [show (-1075 : ℤ) = -1074 - 1 by norm_num, zpow_sub_one₀ two_ne_zero]
          ring
      _ ≤ 1 / 2 * 2 ^ e := by gcongr; exacts [one_le_two, hfits.least_le]
      _ ≤ v := by rw [← le_div_iff₀ hunit]; linarith [h.le, half_le_lowEnd double m e]
  · calc v ≤ (m + 1 / 2) * 2 ^ e := by rw [← div_le_iff₀ hunit]; exact h.ge
      _ ≤ 2 ^ 53 * 2 ^ (971 : ℤ) := by gcongr; exacts [by linarith, one_le_two, hfits.le_greatest]
      _ = 2 ^ (1024 : ℤ) := by
          rw [show (1024 : ℤ) = (53 : ℕ) + 971 by norm_num, zpow_add₀ two_ne_zero, zpow_natCast]
      _ < 10 ^ (400 : ℤ) := two_zpow_lt_ten_zpow (n := 400) (by norm_num) (by norm_num)

/-- A decimal next to a positive number has a digit other than zero. -/
lemma pos_of_roundsTo {f : Format} (hm : 0 < m) (h : RoundsTo f m e (d * 10 ^ g)) : 0 < d := by
  have hone : (1 : ℚ) ≤ m := by exact_mod_cast hm
  refine Nat.pos_of_ne_zero ?_
  rintro rfl
  have := h.le
  rw [Nat.cast_zero, zero_mul, zero_div] at this
  linarith [half_le_lowEnd f m e]

/-- **A decimal next to a number of 64 bits becomes this number.** -/
lemma ofDecimal_eq_finite (hm : 0 < m) (hfits : Fits double m e) (negative : Bool)
    (h : RoundsTo double m e (d * 10 ^ g)) : ofDecimal double negative d g = finite negative m e := by
  obtain ⟨hlow, hhigh⟩ := h.bounds hm hfits
  have hd := pos_of_roundsTo hm h
  obtain ⟨hleast, hgreatest⟩ := decimal_bounds hd g
  have hlower : ¬(d = 0 ∨ g + (Nat.toDigits 10 d).length < -400) := by
    rintro (rfl | hsmall)
    · exact absurd hd (lt_irrefl 0)
    · have hle : (10 : ℚ) ^ (g + (Nat.toDigits 10 d).length) ≤ 10 ^ (-401 : ℤ) :=
        zpow_le_zpow_right₀ (by norm_num) (by omega)
      linarith
  have hupper : ¬400 < g + (Nat.toDigits 10 d).length := by
    intro hgreat
    have hle : (10 : ℚ) ^ (400 : ℤ) ≤ 10 ^ (g + (Nat.toDigits 10 d).length - 1) :=
      zpow_le_zpow_right₀ (by norm_num) (by omega)
    linarith
  have hvalue : ((d * power 10 g : ℕ) : ℚ) / (power 10 (-g) : ℕ) = d * 10 ^ g := by
    rw [mul_power_div_power, Nat.cast_ofNat]
  simp only [ofDecimal, if_neg hlower, if_neg hupper]
  exact ofQuotient_eq_finite (by decide) hm hfits negative (power_pos (by norm_num) _) (hvalue ▸ h)

end Binary

namespace Shortest

open Binary

variable {m num den count d : ℕ} {e g : ℤ}

/-! ## What the search compares -/

/-- The value of a decimal. -/
lemma decimal_value (d : ℕ) (g : ℤ) : ((decimal d g).1 : ℚ) / (decimal d g).2 = d * 10 ^ g := by
  rw [decimal, mul_power_div_power, Nat.cast_ofNat]

lemma decimal_snd_pos (d : ℕ) (g : ℤ) : 0 < (decimal d g).2 := power_pos (by norm_num) (-g)

/-- **The search tells the values that become a number** by comparing integers: four times the value
and four times the ends, all with one denominator. -/
lemma readsBack_iff (hm : 0 < m) (hden : 0 < den) :
    readsBack m e num den = true ↔ RoundsTo double m e (num / den) := by
  obtain ⟨n, hn⟩ : ∃ n, n = (scaled num den (e - 2)).1 := ⟨_, rfl⟩
  obtain ⟨k, hk⟩ : ∃ k, k = (scaled num den (e - 2)).2 := ⟨_, rfl⟩
  obtain ⟨low, hlow⟩ : ∃ low, low = if m = 2 ^ (double.digits - 1) ∧ double.least < e then 4 * m - 1 else 4 * m - 2 :=
    ⟨_, rfl⟩
  have hunfold : readsBack m e num den = true ↔
      (low * k < n ∧ n < (4 * m + 2) * k) ∨ (m % 2 = 0 ∧ (n = low * k ∨ n = (4 * m + 2) * k)) := by
    simp only [readsBack, ← hn, ← hk, Bool.or_eq_true, Bool.and_eq_true, decide_eq_true_eq]
    rw [hlow]
    rfl
  have hpos : (0 : ℚ) < k := by exact_mod_cast hk ▸ scaled_snd_pos hden num (e - 2)
  have hvalue : (n : ℚ) = 4 * (num / den / 2 ^ e) * k := by
    rw [← div_eq_iff hpos.ne', hn, hk, scaled_value, show e - 2 = e - 1 - 1 by ring, div_two_zpow_sub_one,
      div_two_zpow_sub_one]
    ring
  have hlowEnd : ((low * k : ℕ) : ℚ) = 4 * lowEnd double m e * k := by
    rw [Nat.cast_mul, hlow, four_mul_lowEnd hm]
  have hhighEnd : (((4 * m + 2) * k : ℕ) : ℚ) = 4 * (m + 1 / 2) * k := by
    push_cast
    ring
  rw [hunfold, roundsTo_iff, ← Nat.cast_lt (α := ℚ), ← Nat.cast_lt (α := ℚ), ← @Nat.cast_inj ℚ _ _ n,
    ← @Nat.cast_inj ℚ _ _ n, hvalue, hlowEnd, hhighEnd]
  simp only [mul_lt_mul_iff_of_pos_right hpos, mul_left_inj' hpos.ne', mul_lt_mul_iff_of_pos_left four_pos,
    mul_right_inj' (four_pos (α := ℚ)).ne']

/-! ## The longest mantissa -/

lemma normal_value (m : ℕ) (e : ℤ) : ((normal m e).1 : ℚ) * 2 ^ (normal m e).2 = m * 2 ^ e := by
  simp only [normal, Nat.pow_eq]
  generalize min (double.digits - (m.log2 + 1)) (e - double.least).toNat = k
  rw [Nat.cast_mul, Nat.cast_pow, Nat.cast_ofNat, mul_assoc, ← zpow_natCast, ← zpow_add₀ two_ne_zero,
    add_sub_cancel]

/-- **A mantissa made as long as it can be** is one of the format. -/
lemma fits_normal (hm : 0 < m) (hlt : m < 2 ^ 53) (hleast : double.least ≤ e) (hgreatest : e ≤ double.greatest) :
    0 < (normal m e).1 ∧ Fits double (normal m e).1 (normal m e).2 := by
  obtain ⟨k, hk⟩ : ∃ k, k = min (double.digits - (m.log2 + 1)) (e - double.least).toNat := ⟨_, rfl⟩
  have hnormal : normal m e = (m * 2 ^ k, e - k) := by rw [hk]; rfl
  have hlog : m.log2 + 1 ≤ 53 := (Nat.log2_lt hm.ne').mpr hlt
  have hdigits : double.digits = 53 := rfl
  rw [hnormal]
  refine ⟨by positivity, ?_, by dsimp only; omega, by dsimp only; omega, ?_⟩
  · calc m * 2 ^ k < 2 ^ (m.log2 + 1) * 2 ^ k := Nat.mul_lt_mul_of_pos_right Nat.lt_log2_self (by positivity)
      _ = 2 ^ (m.log2 + 1 + k) := (pow_add ..).symm
      _ ≤ 2 ^ double.digits := Nat.pow_le_pow_right two_pos (by omega)
  · obtain hspare | hrange : k = double.digits - (m.log2 + 1) ∨ k = (e - double.least).toNat := by omega
    · refine .inr ?_
      calc 2 ^ (double.digits - 1) = 2 ^ m.log2 * 2 ^ k := by rw [← pow_add]; congr 1; omega
        _ ≤ m * 2 ^ k := Nat.mul_le_mul_right _ (Nat.log2_self_le hm.ne')
    · exact .inl (by dsimp only; omega)

/-! ## The search -/

/-- A quotient is not below the power of ten of its leading digit. -/
lemma zpow_leading_le (hnum : 0 < num) (hden : 0 < den) : (10 : ℚ) ^ leading num den ≤ num / den := by
  have hpos : (0 : ℚ) < den := by exact_mod_cast hden
  rw [leading]
  split
  · rename_i hle
    have hquotient : 0 < num / den := Nat.div_pos hle hden
    have hexp : ((Nat.toDigits 10 (num / den)).length : ℤ) - 1 = ((Nat.toDigits 10 (num / den)).length - 1 : ℕ) := by
      have : 0 < (Nat.toDigits 10 (num / den)).length := Nat.length_toDigits_pos
      omega
    rw [hexp, zpow_natCast]
    calc (10 : ℚ) ^ ((Nat.toDigits 10 (num / den)).length - 1) ≤ (num / den : ℕ) := by
          exact_mod_cast pow_length_le hquotient
      _ ≤ num / den := Nat.cast_div_le
  · rename_i hlt
    have hdiv : (den - 1) / num < 10 ^ (Nat.toDigits 10 ((den - 1) / num)).length := lt_pow_length _
    rw [Nat.div_lt_iff_lt_mul hnum] at hdiv
    have hle : (den : ℚ) ≤ 10 ^ (Nat.toDigits 10 ((den - 1) / num)).length * num := by
      exact_mod_cast (show den ≤ 10 ^ (Nat.toDigits 10 ((den - 1) / num)).length * num by omega)
    rw [zpow_neg, zpow_natCast, le_div_iff₀ hpos, inv_mul_le_iff₀ (by positivity)]
    exact hle

lemma readsBack_of_withDigits? (h : withDigits? m e num den count = some (d, g)) :
    readsBack m e (decimal d g).1 (decimal d g).2 = true := by
  simp only [withDigits?, Option.map_eq_some_iff, Prod.mk.injEq] at h
  obtain ⟨k, hfind, rfl, rfl⟩ := h
  have hk := List.find?_some hfind
  exact hk

/-- A decimal strictly between the ends is found to read back. -/
lemma readsBack_of_between (hm : 0 < m) (hl : lowEnd double m e * 2 ^ e < d * 10 ^ g)
    (hr : (d : ℚ) * 10 ^ g < (m + 1 / 2) * 2 ^ e) : readsBack m e (decimal d g).1 (decimal d g).2 = true := by
  have hunit : (0 : ℚ) < 2 ^ e := by positivity
  rw [← lt_div_iff₀ hunit] at hl
  rw [← div_lt_iff₀ hunit] at hr
  rw [readsBack_iff hm (decimal_snd_pos d g), decimal_value]
  exact roundsTo_iff.mpr (.inl ⟨hl, hr⟩)

/-- One of the two decimals around a number reads back, if they have seventeen digits.

**Proof sketch.** One unit of the last of seventeen digits is at most the number divided by
`10 ^ 16`, which is less than a unit of the mantissa. The nearer one of the two decimals is
therefore less than half a unit of the mantissa away. For a power of two the decimal above is: its
mantissa is as small as it can be, so the unit of the last digit itself is less than half a unit of
the mantissa. -/
lemma readsBack_neighbour (hm : 0 < m) (hfits : Fits double m e) (hlast : (10 : ℚ) ^ g * 10 ^ 16 ≤ m * 2 ^ e)
    (hfloor : (d : ℚ) * 10 ^ g ≤ m * 2 ^ e) (hceil : (m : ℚ) * 2 ^ e < (d + 1) * 10 ^ g) :
    readsBack m e (decimal d g).1 (decimal d g).2 = true ∨
      readsBack m e (decimal (d + 1) g).1 (decimal (d + 1) g).2 = true := by
  have hunit : (0 : ℚ) < 2 ^ e := by positivity
  have hlt : (m : ℚ) + 1 ≤ 2 ^ 53 := by exact_mod_cast hfits.lt
  have hends := lowEnd_lt double m e
  by_cases hpower : m = 2 ^ (double.digits - 1) ∧ double.least < e
  · refine .inr (readsBack_of_between hm ?_ ?_)
    · push_cast
      exact lt_trans (by gcongr) hceil
    · have hm52 : (m : ℚ) = 2 ^ 52 := by exact_mod_cast hpower.1
      rw [hm52] at hlast hfloor ⊢
      push_cast
      linarith
  · have hlow : lowEnd double m e = m - 1 / 2 := by rw [lowEnd, if_neg hpower]
    have hbound : (10 : ℚ) ^ g < 2 ^ e := by nlinarith
    by_cases hhalf : (m : ℚ) * 2 ^ e - d * 10 ^ g ≤ 10 ^ g / 2
    · exact .inl (readsBack_of_between hm (by rw [hlow]; linarith) (by linarith))
    · exact .inr (readsBack_of_between hm (by rw [hlow]; push_cast; linarith) (by push_cast; linarith))

/-- The two decimals that the search looks at lie around the quotient. -/
lemma quotient_bounds (num : ℕ) (hden : 0 < den) (g : ℤ) :
    ((num * power 10 (-g) / (den * power 10 g) : ℕ) : ℚ) * 10 ^ g ≤ num / den ∧
      (num : ℚ) / den < ((num * power 10 (-g) / (den * power 10 g) : ℕ) + 1) * 10 ^ g := by
  have hstep : (0 : ℚ) < 10 ^ g := by positivity
  have hpos : 0 < den * power 10 g := Nat.mul_pos hden (power_pos (by norm_num) g)
  have hquotient : ((num * power 10 (-g) : ℕ) : ℚ) / (den * power 10 g : ℕ) = num / den / 10 ^ g := by
    have hpower := power_div_power 10 (-g)
    rw [neg_neg, zpow_neg, Nat.cast_ofNat] at hpower
    rw [Nat.cast_mul, Nat.cast_mul, mul_div_mul_comm, hpower, ← div_eq_mul_inv]
  rw [← le_div_iff₀ hstep, ← div_lt_iff₀ hstep, ← hquotient, div_lt_iff₀ (by exact_mod_cast hpos)]
  exact ⟨Nat.cast_div_le, by exact_mod_cast Nat.lt_mul_of_div_lt (Nat.lt_succ_self _) hpos⟩

/-- **Seventeen digits are enough.** -/
lemma exists_withDigits? (hm : 0 < m) (hfits : Fits double m e) (hnum : 0 < num) (hden : 0 < den)
    (hvalue : (num : ℚ) / den = m * 2 ^ e) : ∃ d g, withDigits? m e num den 17 = some (d, g) := by
  obtain ⟨g, hg⟩ : ∃ g, g = leading num den - (17 : ℕ) + 1 := ⟨_, rfl⟩
  obtain ⟨below, hbelow⟩ : ∃ below, below = num * power 10 (-g) / (den * power 10 g) := ⟨_, rfl⟩
  have hlast : (10 : ℚ) ^ g * 10 ^ 16 ≤ m * 2 ^ e := by
    calc (10 : ℚ) ^ g * 10 ^ 16 = 10 ^ leading num den := by
          rw [← zpow_natCast, ← zpow_add₀ (by norm_num), hg]
          congr 1
          push_cast
          ring
      _ ≤ num / den := zpow_leading_le hnum hden
      _ = m * 2 ^ e := hvalue
  obtain ⟨hfloor, hceil⟩ := quotient_bounds num hden g
  rw [hvalue, ← hbelow] at hfloor hceil
  have hnear := readsBack_neighbour hm hfits hlast hfloor hceil
  have hsome : ∀ candidates : List ℕ, (candidates = [below, below + 1] ∨ candidates = [below + 1, below]) →
      ∃ k, candidates.find? (fun k => readsBack m e (decimal k g).1 (decimal k g).2) = some k := by
    intro candidates hcandidates
    rw [← Option.isSome_iff_exists, List.find?_isSome]
    obtain rfl | rfl := hcandidates <;> simpa [or_comm] using hnear
  obtain ⟨k, hk⟩ := hsome (if num * power 10 (-g) % (den * power 10 g) * 2 < den * power 10 g
    then [below, below + 1] else [below + 1, below]) (by split <;> simp)
  refine ⟨k, g, ?_⟩
  simp only [withDigits?, ← hg, ← hbelow, hk, Option.map_some]

/-- **The decimal that is found becomes the number.** -/
lemma roundsTo_digits (hm : 0 < m) (hlt : m < 2 ^ 53) (hleast : double.least ≤ e) (hgreatest : e ≤ double.greatest) :
    RoundsTo double (normal m e).1 (normal m e).2 ((digits m e).1 * 10 ^ (digits m e).2) := by
  obtain ⟨hpos, hfits⟩ := fits_normal hm hlt hleast hgreatest
  obtain ⟨m', hm'⟩ : ∃ m', m' = (normal m e).1 := ⟨_, rfl⟩
  obtain ⟨e', he'⟩ : ∃ e', e' = (normal m e).2 := ⟨_, rfl⟩
  rw [← hm', ← he'] at hfits ⊢
  rw [← hm'] at hpos
  have hvalue : ((m' * power 2 e' : ℕ) : ℚ) / (power 2 (-e') : ℕ) = m' * 2 ^ e' := by
    rw [mul_power_div_power, Nat.cast_ofNat]
  have hdigits : digits m e = ((List.range 17).findSome? fun i =>
      withDigits? m' e' (m' * power 2 e') (power 2 (-e')) (i + 1)).getD (m' * power 2 e', 0) := by
    rw [hm', he']
    rfl
  obtain ⟨d, g, hlongest⟩ := exists_withDigits? hpos hfits (Nat.mul_pos hpos (power_pos two_pos e'))
    (power_pos two_pos (-e')) hvalue
  obtain ⟨⟨d, g⟩, hfound⟩ := Option.isSome_iff_exists.mp
    (List.findSome?_isSome_iff.mpr ⟨16, List.mem_range.mpr (by norm_num), by rw [hlongest]; rfl⟩ :
      ((List.range 17).findSome? fun i => withDigits? m' e' (m' * power 2 e') (power 2 (-e')) (i + 1)).isSome)
  obtain ⟨i, -, hi⟩ := List.exists_of_findSome?_eq_some hfound
  rw [hdigits, hfound, Option.getD_some, ← decimal_value]
  exact (readsBack_iff hpos (decimal_snd_pos _ _)).mp (readsBack_of_withDigits? hi)

/-! ## Numbers of 32 bits -/

/-- A number of 32 bits, made one of 64 bits, becomes itself again. -/
lemma convert_normal (hm : 0 < m) (hfits : Fits single m e) (negative : Bool) :
    convert single (finite negative (normal m e).1 (normal m e).2) = finite negative m e := by
  have hvalue : (((normal m e).1 * power 2 (normal m e).2 : ℕ) : ℚ) / (power 2 (-(normal m e).2) : ℕ) = m * 2 ^ e := by
    rw [mul_power_div_power, Nat.cast_ofNat, normal_value]
  refine ofQuotient_eq_finite (by decide) hm hfits negative (power_pos two_pos _) ?_
  rw [hvalue]
  exact roundsTo_self single m e

/-- A number of 32 bits is one that the search is made for. -/
lemma roundsTo_digits_of_fits (hm : 0 < m) (hfits : Fits single m e) :
    0 < (normal m e).1 ∧ Fits double (normal m e).1 (normal m e).2 ∧
      RoundsTo double (normal m e).1 (normal m e).2 ((digits m e).1 * 10 ^ (digits m e).2) := by
  have hlt : m < 2 ^ 53 := hfits.lt.trans (by decide)
  have hleast : double.least ≤ e := le_trans (by decide) hfits.least_le
  have hgreatest : e ≤ double.greatest := hfits.le_greatest.trans (by decide)
  obtain ⟨hpos, hnormal⟩ := fits_normal hm hlt hleast hgreatest
  exact ⟨hpos, hnormal, roundsTo_digits hm hlt hleast hgreatest⟩

lemma digits_pos (hm : 0 < m) (hfits : Fits single m e) : 0 < (digits m e).1 := by
  obtain ⟨hpos, -, hrounds⟩ := roundsTo_digits_of_fits hm hfits
  exact pos_of_roundsTo hpos hrounds

/-- **The decimal of a number of 32 bits** is read as the same number made one of 64 bits. -/
lemma ofDecimal_digits (hm : 0 < m) (hfits : Fits single m e) (negative : Bool)
    (h : (d : ℚ) * 10 ^ g = (digits m e).1 * 10 ^ (digits m e).2) :
    ofDecimal double negative d g = finite negative (normal m e).1 (normal m e).2 := by
  obtain ⟨hpos, hnormal, hrounds⟩ := roundsTo_digits_of_fits hm hfits
  exact ofDecimal_eq_finite hpos hnormal negative (h ▸ hrounds)

end Shortest

end DocBlocks
