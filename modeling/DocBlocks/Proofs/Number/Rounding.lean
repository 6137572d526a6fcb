import DocBlocks.Number.Binary
import Mathlib.Algebra.Order.Field.Power
import Mathlib.Algebra.Order.Field.Rat
import Mathlib.Tactic.FieldSimp
import Mathlib.Tactic.Lemma
import Mathlib.Tactic.Linarith
import Mathlib.Tactic.Positivity
import Mathlib.Tactic.Ring

/-!
# Rounding to binary numbers

What the integer arithmetic of `Binary.ofQuotient` does to the rational value of a quotient. It
finds the one exponent at which the format can hold the value, rounds the scaled value to the
nearest whole number, the even one of two, and moves on to the next exponent if the digits overflow.
So a value next to a number of the format becomes that number.

## Main definitions

* `Binary.IsRounded`: whether a whole number is the one that a value is rounded to.
* `Binary.IsExponent`: whether a format holds a value at an exponent.
* `Binary.Fits`: the mantissas and exponents of the numbers of a format.
* `Binary.RoundsTo`: whether a value lies among those that become a number of a format.

## Main results

* `isRounded_roundQuotient`, `IsRounded.eq`: the whole number that a quotient is rounded to.
* `exists_isExponent`: what the number nearest to a quotient is made from.
* `ofQuotient_eq_finite`: **a value next to a number of a format becomes this number**.
* `isOf_ofQuotient`: what comes out is a number of the format.
-/

namespace DocBlocks.Binary

variable {f : Format} {v w : ℚ} {num den m : ℕ} {e : ℤ}

/-! ## Values of quotients -/

lemma power_pos {base : ℕ} (hbase : 0 < base) (e : ℤ) : 0 < power base e := Nat.pow_pos hbase

/-- A power with any exponent as a quotient of two that have none below zero. -/
lemma power_div_power (base : ℕ) (e : ℤ) :
    (power base e : ℚ) / power base (-e) = (base : ℚ) ^ e := by
  have hone : ∀ n : ℕ, power base (-(n : ℤ)) = 1 := fun n => by
    rw [power, Int.toNat_neg_natCast]
    exact Nat.pow_zero base
  have hpow : ∀ n : ℕ, power base n = base ^ n := fun n => by rw [power, Int.toNat_natCast]; rfl
  obtain ⟨n, rfl | rfl⟩ := Int.eq_nat_or_neg e
  · rw [hone, hpow, Nat.cast_one, div_one, Nat.cast_pow, zpow_natCast]
  · rw [hone, neg_neg, hpow, Nat.cast_one, one_div, Nat.cast_pow, zpow_neg, zpow_natCast]

/-- A multiple of a power, as its terms. -/
lemma mul_power_div_power (base n : ℕ) (e : ℤ) :
    ((n * power base e : ℕ) : ℚ) / (power base (-e) : ℕ) = n * (base : ℚ) ^ e := by
  rw [Nat.cast_mul, mul_div_assoc, power_div_power]

/-- **A scaled quotient** is the quotient divided by a power of two. -/
lemma scaled_value (num den : ℕ) (e : ℤ) :
    ((scaled num den e).1 : ℚ) / (scaled num den e).2 = num / den / 2 ^ e := by
  have hpower := power_div_power 2 (-e)
  rw [neg_neg, zpow_neg, Nat.cast_two] at hpower
  rw [scaled, Nat.cast_mul, Nat.cast_mul, mul_div_mul_comm, hpower, div_eq_mul_inv (num / den : ℚ)]

lemma scaled_snd_pos (hden : 0 < den) (num : ℕ) (e : ℤ) : 0 < (scaled num den e).2 :=
  Nat.mul_pos hden (power_pos two_pos e)

/-- One exponent less doubles the scaled value. -/
lemma div_two_zpow_sub_one (v : ℚ) (e : ℤ) : v / 2 ^ (e - 1) = 2 * (v / 2 ^ e) := by
  rw [zpow_sub_one₀ two_ne_zero, div_mul_eq_div_div, div_inv_eq_mul, mul_comm]

/-! ## Whole numbers -/

/-- Whether a value is rounded to a whole number: it is at most a half away, and less than that if
the number is odd. -/
structure IsRounded (w : ℚ) (m : ℕ) : Prop where
  le : 2 * (m : ℚ) ≤ 2 * w + 1
  ge : 2 * w ≤ 2 * m + 1
  tie : m % 2 = 1 → 2 * (m : ℚ) < 2 * w + 1 ∧ 2 * w < 2 * m + 1

/-- **No value is rounded to two whole numbers**: they would be neighbours, the value halfway
between them, and one of them odd. -/
lemma IsRounded.eq {m' : ℕ} (h : IsRounded w m) (h' : IsRounded w m') : m = m' := by
  have key : ∀ {a b : ℕ}, IsRounded w a → IsRounded w b → ¬a < b := by
    intro a b ha hb hlt
    have hle : (a : ℚ) + 1 ≤ b := by exact_mod_cast hlt
    have hge : b ≤ a + 1 := by
      have : (b : ℚ) ≤ a + 1 := by linarith [ha.ge, hb.le]
      exact_mod_cast this
    obtain rfl : b = a + 1 := le_antisymm hge hlt
    obtain hodd | hodd : a % 2 = 1 ∨ (a + 1) % 2 = 1 := by omega
    · linarith [(ha.tie hodd).2, hb.le]
    · linarith [(hb.tie hodd).1, ha.ge]
  exact le_antisymm (not_lt.mp (key h' h)) (not_lt.mp (key h h'))

lemma isRounded_roundQuotient (hden : 0 < den) (num : ℕ) :
    IsRounded (num / den) (roundQuotient num den) := by
  have hsum : (num : ℚ) = den * (num / den : ℕ) + (num % den : ℕ) := by exact_mod_cast (Nat.div_add_mod num den).symm
  have hpos : (0 : ℚ) < den := by exact_mod_cast hden
  have hvalue : (num : ℚ) / den = (num / den : ℕ) + (num % den : ℕ) / den := by
    rw [div_eq_iff hpos.ne', add_mul, div_mul_cancel₀ _ hpos.ne', mul_comm]
    exact hsum
  have hlt : ((num % den : ℕ) : ℚ) / den < 1 := by
    rw [div_lt_one hpos]
    exact_mod_cast Nat.mod_lt num hden
  have hnonneg : (0 : ℚ) ≤ (num % den : ℕ) / den := by positivity
  -- the remainder against the half of the divisor, as the definition compares them
  have hcompare : (1 < 2 * ((num % den : ℕ) / den : ℚ) ↔ den < 2 * (num % den)) ∧
      (2 * ((num % den : ℕ) / den : ℚ) = 1 ↔ 2 * (num % den) = den) := by
    rw [← mul_div_assoc, lt_div_iff₀ hpos, one_mul, div_eq_iff hpos.ne', one_mul]
    exact ⟨by exact_mod_cast Iff.rfl, by exact_mod_cast Iff.rfl⟩
  obtain ⟨hmore, hhalf⟩ := hcompare
  rw [hvalue]
  generalize ((num % den : ℕ) / den : ℚ) = r at hlt hnonneg hmore hhalf ⊢
  simp only [roundQuotient]
  split
  · rename_i h
    have hr : 1 ≤ 2 * r := h.elim (fun h => (hmore.mpr h).le) fun h => (hhalf.mpr h.1).ge
    refine ⟨by push_cast; linarith, by push_cast; linarith, fun hodd => ?_⟩
    have hstrict : 1 < 2 * r := hmore.mpr (h.resolve_right fun h => by omega)
    exact ⟨by push_cast; linarith, by push_cast; linarith⟩
  · rename_i h
    obtain ⟨hle, htie⟩ := not_or.mp h
    have hr : 2 * r ≤ 1 := not_lt.mp fun h => hle (hmore.mp h)
    refine ⟨by linarith, by linarith, fun hodd => ?_⟩
    have hstrict : 2 * r < 1 := lt_of_le_of_ne hr fun h => htie ⟨hhalf.mp h, hodd⟩
    exact ⟨by linarith, by linarith⟩

/-! ## Exponents -/

/-- Whether a format holds a value at an exponent: scaled by it, the value is below the greatest
mantissa, and with as few digits only at the least exponent. -/
structure IsExponent (f : Format) (v : ℚ) (e : ℤ) : Prop where
  least_le : f.least ≤ e
  lt : v / 2 ^ e < 2 ^ f.digits
  full : e = f.least ∨ 2 ^ (f.digits - 1) ≤ v / 2 ^ e

lemma two_pow_digits (hdigits : 0 < f.digits) : (2 : ℚ) ^ f.digits = 2 * 2 ^ (f.digits - 1) := by
  rw [← pow_succ', Nat.sub_add_cancel hdigits]

/-- **A value has one exponent.** -/
lemma IsExponent.eq {e' : ℤ} (hv : 0 ≤ v) (hdigits : 0 < f.digits) (h : IsExponent f v e) (h' : IsExponent f v e') :
    e = e' := by
  have key : ∀ {a b : ℤ}, IsExponent f v a → IsExponent f v b → ¬a < b := by
    intro a b ha hb hlt
    obtain hleast | hfull := hb.full
    · have := ha.least_le
      omega
    · have hstep : v / 2 ^ b ≤ v / 2 ^ a / 2 := by
        rw [div_div, ← zpow_add_one₀ two_ne_zero]
        exact div_le_div_of_nonneg_left hv (by positivity) (zpow_le_zpow_right₀ one_le_two hlt)
      linarith [ha.lt, two_pow_digits hdigits]
  exact le_antisymm (not_lt.mp (key h' h)) (not_lt.mp (key h h'))

/-- The binary logarithms of the two terms of a quotient bound its value. -/
lemma log2_bounds (hnum : num ≠ 0) (hden : 0 < den) :
    (2 : ℚ) ^ ((num.log2 : ℤ) - den.log2 - 1) ≤ num / den ∧
      (num : ℚ) / den < 2 ^ ((num.log2 : ℤ) - den.log2 + 1) := by
  have hpos : (0 : ℚ) < den := by exact_mod_cast hden
  have hnumLow : (2 : ℚ) ^ (num.log2 : ℤ) ≤ num := by
    rw [zpow_natCast]
    exact_mod_cast Nat.log2_self_le hnum
  have hnumHigh : (num : ℚ) < 2 ^ ((num.log2 : ℤ) + 1) := by
    exact_mod_cast Nat.lt_log2_self (n := num)
  have hdenLow : (2 : ℚ) ^ (den.log2 : ℤ) ≤ den := by
    rw [zpow_natCast]
    exact_mod_cast Nat.log2_self_le hden.ne'
  have hdenHigh : (den : ℚ) < 2 ^ ((den.log2 : ℤ) + 1) := by
    exact_mod_cast Nat.lt_log2_self (n := den)
  constructor
  · rw [le_div_iff₀ hpos]
    calc (2 : ℚ) ^ ((num.log2 : ℤ) - den.log2 - 1) * den
        ≤ 2 ^ ((num.log2 : ℤ) - den.log2 - 1) * 2 ^ ((den.log2 : ℤ) + 1) := by gcongr
      _ = 2 ^ (num.log2 : ℤ) := by rw [← zpow_add₀ two_ne_zero]; congr 1; ring
      _ ≤ num := hnumLow
  · rw [div_lt_iff₀ hpos]
    calc (num : ℚ) < 2 ^ ((num.log2 : ℤ) + 1) := hnumHigh
      _ = 2 ^ ((num.log2 : ℤ) - den.log2 + 1) * 2 ^ (den.log2 : ℤ) := by
          rw [← zpow_add₀ two_ne_zero]; congr 1; ring
      _ ≤ 2 ^ ((num.log2 : ℤ) - den.log2 + 1) * den := by gcongr

/-- A number of a format from a rounded mantissa, which may have got one digit too many. -/
def carried (f : Format) (negative : Bool) (m : ℕ) (e : ℤ) : Binary :=
  if m = 2 ^ f.digits then
    if f.greatest < e + 1 then infinite negative else finite negative (2 ^ (f.digits - 1)) (e + 1)
  else if f.greatest < e then infinite negative
  else finite negative m e

/-- One exponent more halves the scaled value. -/
lemma two_mul_div_two_zpow_add_one (v : ℚ) (e : ℤ) : 2 * (v / 2 ^ (e + 1)) = v / 2 ^ e := by
  rw [← div_two_zpow_sub_one, add_sub_cancel_right]

/-- **An estimate of the exponent** that is at most one too small is put right by comparing with the
greatest mantissa, and by keeping to the range of the format. -/
lemma isExponent_corrected (hdigits : 0 < f.digits) (hv : 0 ≤ v) {b : ℤ} (hlow : 2 ^ (f.digits - 1) ≤ v / 2 ^ b)
    (hhigh : v / 2 ^ b < 2 * 2 ^ f.digits) :
    IsExponent f v (if 2 ^ f.digits ≤ v / 2 ^ max f.least b then max f.least b + 1 else max f.least b) := by
  have hsplit := two_pow_digits hdigits
  by_cases hle : f.least ≤ b
  · rw [max_eq_right hle]
    have hnext := two_mul_div_two_zpow_add_one v b
    split
    · exact ⟨by omega, by linarith, .inr (by linarith)⟩
    · rename_i h
      exact ⟨hle, not_le.mp h, .inr hlow⟩
  · have hlt : b + 1 ≤ f.least := by omega
    have hbelow : v / 2 ^ f.least < 2 ^ f.digits := by
      have hmono : v / 2 ^ f.least ≤ v / 2 ^ (b + 1) :=
        div_le_div_of_nonneg_left hv (by positivity) (zpow_le_zpow_right₀ one_le_two hlt)
      linarith [two_mul_div_two_zpow_add_one v b]
    rw [max_eq_left (by omega), if_neg (not_le.mpr hbelow)]
    exact ⟨le_rfl, hbelow, .inl rfl⟩

/-- **What the number nearest to a quotient is made from**: the exponent of the value, and the whole
number nearest to the value scaled by it. The logarithms of the terms estimate the exponent. -/
lemma exists_isExponent (hdigits : 0 < f.digits) (negative : Bool) (hnum : num ≠ 0) (hden : 0 < den) :
    ∃ e m, IsExponent f (num / den) e ∧ IsRounded (num / den / 2 ^ e) m ∧
      ofQuotient f negative num den = carried f negative m e := by
  obtain ⟨hlow, hhigh⟩ := log2_bounds hnum hden
  obtain ⟨b, hb⟩ : ∃ b : ℤ, b = num.log2 - den.log2 - f.digits := ⟨_, rfl⟩
  obtain ⟨e₀, he₀⟩ : ∃ e₀, e₀ = max f.least b := ⟨_, rfl⟩
  obtain ⟨e, he⟩ : ∃ e, e = if Nat.pow 2 f.digits ≤ (scaled num den e₀).1 / (scaled num den e₀).2 then e₀ + 1 else e₀ :=
    ⟨_, rfl⟩
  have hcompare : Nat.pow 2 f.digits ≤ (scaled num den e₀).1 / (scaled num den e₀).2 ↔
      (2 : ℚ) ^ f.digits ≤ num / den / 2 ^ e₀ := by
    have hsnd := scaled_snd_pos hden num e₀
    have hpos : (0 : ℚ) < (scaled num den e₀).2 := by exact_mod_cast hsnd
    rw [← scaled_value, le_div_iff₀ hpos, Nat.le_div_iff_mul_le hsnd]
    exact_mod_cast Iff.rfl
  have hexponent : IsExponent f (num / den) e := by
    rw [he, if_congr hcompare rfl rfl, he₀]
    refine isExponent_corrected hdigits (by positivity) ?_ ?_
    · have hexp : ((f.digits - 1 : ℕ) : ℤ) + b = num.log2 - den.log2 - 1 := by omega
      rw [le_div_iff₀ (by positivity), ← zpow_natCast, ← zpow_add₀ two_ne_zero, hexp]
      exact hlow
    · have hexp : ((f.digits + 1 : ℕ) : ℤ) + b = num.log2 - den.log2 + 1 := by omega
      rw [div_lt_iff₀ (by positivity), ← pow_succ', ← zpow_natCast, ← zpow_add₀ two_ne_zero, hexp]
      exact hhigh
  refine ⟨e, roundQuotient (scaled num den e).1 (scaled num den e).2, hexponent, ?_, ?_⟩
  · rw [← scaled_value]
    exact isRounded_roundQuotient (scaled_snd_pos hden num e) _
  · rw [ofQuotient, if_neg hnum, carried]
    simp only [← hb, ← he₀, ← he]
    split <;> rename_i h
    · rw [if_pos (show _ = 2 ^ f.digits from h)]
      rfl
    · rw [if_neg (show ¬_ = 2 ^ f.digits from h)]

/-! ## Numbers of a format -/

/-- The mantissas and exponents of the numbers of a format. Below its greatest length a mantissa
stands only at the least exponent. -/
structure Fits (f : Format) (m : ℕ) (e : ℤ) : Prop where
  lt : m < 2 ^ f.digits
  least_le : f.least ≤ e
  le_greatest : e ≤ f.greatest
  full : e = f.least ∨ 2 ^ (f.digits - 1) ≤ m

/-- Whether a number is one of a format. -/
def IsOf (f : Format) : Binary → Prop
  | finite _ m e => Fits f m e
  | infinite _ | nan => True

/-- The least value that becomes a number, if it becomes this number at all. The neighbour below a
power of two is only half as far away as the one above. -/
def lowEnd (f : Format) (m : ℕ) (e : ℤ) : ℚ :=
  if m = 2 ^ (f.digits - 1) ∧ f.least < e then m - 1 / 4 else m - 1 / 2

/-- Whether a value lies among those that become `m` times the power of two with exponent `e`. -/
structure RoundsTo (f : Format) (m : ℕ) (e : ℤ) (v : ℚ) : Prop where
  le : lowEnd f m e ≤ v / 2 ^ e
  ge : v / 2 ^ e ≤ m + 1 / 2
  tie : m % 2 = 1 → lowEnd f m e < v / 2 ^ e ∧ v / 2 ^ e < m + 1 / 2

lemma lowEnd_lt (f : Format) (m : ℕ) (e : ℤ) : lowEnd f m e < m := by
  rw [lowEnd]
  split <;> linarith

lemma half_le_lowEnd (f : Format) (m : ℕ) (e : ℤ) : (m : ℚ) - 1 / 2 ≤ lowEnd f m e := by
  rw [lowEnd]
  split <;> linarith

lemma four_mul_lowEnd (hm : 0 < m) :
    ((if m = 2 ^ (f.digits - 1) ∧ f.least < e then 4 * m - 1 else 4 * m - 2 : ℕ) : ℚ) = 4 * lowEnd f m e := by
  rw [lowEnd]
  split
  · rw [Nat.cast_sub (by omega)]
    push_cast
    ring
  · rw [Nat.cast_sub (by omega)]
    push_cast
    ring

/-- The values that become a number lie between the ends, or at one of them if the mantissa is
even. -/
lemma roundsTo_iff {v : ℚ} :
    RoundsTo f m e v ↔ (lowEnd f m e < v / 2 ^ e ∧ v / 2 ^ e < m + 1 / 2) ∨
      (m % 2 = 0 ∧ (v / 2 ^ e = lowEnd f m e ∨ v / 2 ^ e = m + 1 / 2)) := by
  have hends := lowEnd_lt f m e
  constructor
  · intro h
    obtain heven | hodd : m % 2 = 0 ∨ m % 2 = 1 := by omega
    · obtain hl | hl := h.le.lt_or_eq
      · obtain hr | hr := h.ge.lt_or_eq
        · exact .inl ⟨hl, hr⟩
        · exact .inr ⟨heven, .inr hr⟩
      · exact .inr ⟨heven, .inl hl.symm⟩
    · exact .inl (h.tie hodd)
  · rintro (⟨hl, hr⟩ | ⟨heven, heq | heq⟩)
    · exact ⟨hl.le, hr.le, fun _ => ⟨hl, hr⟩⟩
    · exact ⟨heq.ge, by linarith, fun hodd => by omega⟩
    · exact ⟨by linarith, heq.le, fun hodd => by omega⟩

/-- A number is among the values that become this number. -/
lemma roundsTo_self (f : Format) (m : ℕ) (e : ℤ) : RoundsTo f m e (m * 2 ^ e) := by
  have hvalue : (m : ℚ) * 2 ^ e / 2 ^ e = m := mul_div_cancel_right₀ _ (by positivity)
  refine ⟨?_, ?_, fun _ => ⟨?_, ?_⟩⟩ <;> rw [hvalue]
  · exact (lowEnd_lt f m e).le
  · linarith
  · exact lowEnd_lt f m e
  · linarith

/-- **What comes out is a number of the format.** -/
lemma isOf_ofQuotient (hdigits : 0 < f.digits) (hrange : f.least ≤ f.greatest) (negative : Bool) (num : ℕ)
    (hden : 0 < den) : IsOf f (ofQuotient f negative num den) := by
  by_cases hnum : num = 0
  · rw [ofQuotient, if_pos hnum]
    exact ⟨Nat.two_pow_pos _, le_rfl, hrange, .inl rfl⟩
  obtain ⟨e, m, hexponent, hround, heq⟩ := exists_isExponent (f := f) hdigits negative hnum hden
  have hsplit := two_pow_digits hdigits
  rw [heq, carried]
  split
  · split
    · trivial
    · rename_i h
      refine ⟨Nat.pow_lt_pow_right one_lt_two (Nat.sub_lt hdigits one_pos), ?_, not_lt.mp h, .inr le_rfl⟩
      exact hexponent.least_le.trans (by omega)
  · split
    · trivial
    · rename_i hne h
      refine ⟨lt_of_le_of_ne ?_ hne, hexponent.least_le, not_lt.mp h, ?_⟩
      · have hlt : (m : ℚ) < 2 ^ f.digits + 1 := by linarith [hround.le, hexponent.lt]
        exact Nat.lt_add_one_iff.mp (by exact_mod_cast hlt)
      · refine hexponent.full.imp_right fun hfull => ?_
        have hlt : (2 : ℚ) ^ (f.digits - 1) < m + 1 := by linarith [hround.ge]
        exact Nat.lt_add_one_iff.mp (by exact_mod_cast hlt)

/-- **A value next to a number of a format becomes this number.**

**Proof sketch.** Mostly the value has the exponent of the number, and its mantissa is the nearest
whole number. Only below a power of two the exponent of the value is less by one. The scaled value
then is less than a half below the mantissa that has one digit too many, is rounded to it, and moves
on to the next exponent. -/
lemma ofQuotient_eq_finite (hdigits : 0 < f.digits) (hm : 0 < m) (hfits : Fits f m e) (negative : Bool) (hden : 0 < den)
    (h : RoundsTo f m e (num / den)) : ofQuotient f negative num den = finite negative m e := by
  have hone : (1 : ℚ) ≤ m := by exact_mod_cast hm
  have hlt : (m : ℚ) + 1 ≤ 2 ^ f.digits := by exact_mod_cast hfits.lt
  have hsplit := two_pow_digits hdigits
  have hlow := half_le_lowEnd f m e
  have hnum : num ≠ 0 := by
    rintro rfl
    have := h.le
    rw [Nat.cast_zero, zero_div, zero_div] at this
    linarith
  have hnonneg : (0 : ℚ) ≤ num / den := by positivity
  obtain ⟨e', m', hexponent, hround, heq⟩ := exists_isExponent (f := f) hdigits negative hnum hden
  by_cases hcase : e = f.least ∨ 2 ^ (f.digits - 1) ≤ (num : ℚ) / den / 2 ^ e
  · have hown : IsExponent f (num / den) e := ⟨hfits.least_le, by linarith [h.ge], hcase⟩
    obtain rfl := hexponent.eq hnonneg hdigits hown
    have hmantissa : IsRounded (num / den / 2 ^ e') m :=
      ⟨by linarith [h.le], by linarith [h.ge], fun hodd =>
        ⟨by linarith [(h.tie hodd).1], by linarith [(h.tie hodd).2]⟩⟩
    rw [heq, hround.eq hmantissa, carried, if_neg hfits.lt.ne, if_neg (not_lt.mpr hfits.le_greatest)]
  · obtain ⟨hleast, hbelow⟩ := not_or.mp hcase
    rw [not_le] at hbelow
    have hleast : f.least < e := lt_of_le_of_ne hfits.least_le (Ne.symm hleast)
    -- the mantissa is the least full one, since the value is not a whole unit below it
    have hpower : m = 2 ^ (f.digits - 1) := by
      refine le_antisymm ?_ (hfits.full.resolve_left hleast.ne')
      have : (m : ℚ) < 2 ^ (f.digits - 1) + 1 := by linarith [h.le]
      exact Nat.lt_add_one_iff.mp (by exact_mod_cast this)
    have hcast : (m : ℚ) = 2 ^ (f.digits - 1) := by exact_mod_cast hpower
    have hquarter : (m : ℚ) - 1 / 4 ≤ num / den / 2 ^ e := by
      have := h.le
      rwa [lowEnd, if_pos ⟨hpower, hleast⟩] at this
    have hdouble := div_two_zpow_sub_one (num / den : ℚ) e
    have hown : IsExponent f (num / den) (e - 1) :=
      ⟨by omega, by linarith, .inr (by linarith)⟩
    obtain rfl := hexponent.eq hnonneg hdigits hown
    have hmantissa : IsRounded (num / den / 2 ^ (e - 1)) (2 ^ f.digits) := by
      refine ⟨by push_cast; linarith, by push_cast; linarith, fun hodd => ?_⟩
      rw [← Nat.sub_add_cancel hdigits, pow_succ] at hodd
      omega
    rw [heq, hround.eq hmantissa, carried, if_pos rfl, sub_add_cancel, if_neg (not_lt.mpr hfits.le_greatest), hpower]

end DocBlocks.Binary
