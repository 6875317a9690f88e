import Mathlib.Algebra.Order.Field.Power
import Mathlib.Algebra.Order.Round
import Mathlib.Tactic.FieldSimp
import Mathlib.Tactic.Linarith
import Mathlib.Tactic.NormNum
import Mathlib.Tactic.Positivity
import Mathlib.Tactic.Ring
import Selebrow.Json.Number

/-!
# Rounding to `float64`

`roundFloat64` of a fraction depends on its value alone, gives a mantissa of at most 53
bits, and gives every double back from a fraction that is near enough to it.
-/

namespace Selebrow.Json

/-! ## Powers -/

section

variable {num den : Nat} {k k' : Int}

theorem pow_toNat_div (base : Nat) (hb : 0 < base) (a c : Nat) (k : Int) :
    ((a * Nat.pow base k.toNat : Nat) : ℚ) / ((c * Nat.pow base (-k).toNat : Nat) : ℚ) =
      a / c * (base : ℚ) ^ k := by
  have hne : (base : ℚ) ≠ 0 := Nat.cast_ne_zero.mpr (Nat.pos_iff_ne_zero.mp hb)
  rcases Int.le_total 0 k with hk | hk
  · obtain ⟨n, rfl⟩ := Int.eq_ofNat_of_zero_le hk
    have hneg : (-(n : Int)).toNat = 0 := by omega
    rw [hneg, Int.toNat_natCast, Nat.pow_eq, Nat.pow_eq, Nat.pow_zero, Nat.mul_one, Nat.cast_mul,
      Nat.cast_pow, zpow_natCast, mul_div_right_comm]
  · obtain ⟨n, hn⟩ := Int.eq_ofNat_of_zero_le (Int.neg_nonneg_of_nonpos hk)
    obtain rfl : k = -(n : Int) := by omega
    have hneg : (-(n : Int)).toNat = 0 := by omega
    rw [hneg, neg_neg, Int.toNat_natCast, Nat.pow_eq, Nat.pow_eq, Nat.pow_zero, Nat.mul_one,
      Nat.cast_mul, Nat.cast_pow, zpow_neg, zpow_natCast, ← div_div, div_eq_mul_inv]

theorem ltPow_iff (base num : Nat) (hb : 0 < base) (hden : 0 < den) (k : Int) :
    ltPow base num den k = true ↔ (num : ℚ) / den < (base : ℚ) ^ k := by
  have hd : (0 : ℚ) < den := Nat.cast_pos.mpr hden
  have hpow : (0 : ℚ) < ((Nat.pow base (-k).toNat : Nat) : ℚ) :=
    Nat.cast_pos.mpr (Nat.pow_pos hb)
  have hk := pow_toNat_div base hb 1 1 k
  rw [Nat.one_mul, Nat.one_mul, Nat.cast_one, div_one, one_mul] at hk
  rw [ltPow, decide_eq_true_eq, ← hk, div_lt_div_iff₀ hd hpow, ← Nat.cast_mul, ← Nat.cast_mul,
    Nat.cast_lt, Nat.mul_comm den]

theorem zpow_unique {b r : ℚ} (hb : 1 < b) (hk : b ^ k ≤ r) (hk₁ : r < b ^ (k + 1))
    (hk' : b ^ k' ≤ r) (hk₁' : r < b ^ (k' + 1)) : k = k' := by
  have h := (zpow_lt_zpow_iff_right₀ hb).mp (lt_of_le_of_lt hk hk₁')
  have h' := (zpow_lt_zpow_iff_right₀ hb).mp (lt_of_le_of_lt hk' hk₁)
  omega

theorem log2_zpow {n : Nat} (hn : 0 < n) :
    (2 : ℚ) ^ (n.log2 : Int) ≤ n ∧ (n : ℚ) < 2 ^ ((n.log2 : Int) + 1) := by
  constructor
  · rw [zpow_natCast]
    exact_mod_cast Nat.log2_self_le (Nat.pos_iff_ne_zero.mp hn)
  · have h : n < 2 ^ (n.log2 + 1) := Nat.lt_log2_self
    have hcast : ((n.log2 : Int) + 1) = ((n.log2 + 1 : Nat) : Int) := by omega
    rw [hcast, zpow_natCast]
    exact_mod_cast h

theorem floorLog2_spec (hnum : 0 < num) (hden : 0 < den) :
    (2 : ℚ) ^ floorLog2 num den ≤ num / den ∧ (num : ℚ) / den < 2 ^ (floorLog2 num den + 1) := by
  have hd : (0 : ℚ) < den := Nat.cast_pos.mpr hden
  obtain ⟨hn, hn'⟩ := log2_zpow hnum
  obtain ⟨hd', hd''⟩ := log2_zpow hden
  have hlow : (2 : ℚ) ^ ((num.log2 : Int) - den.log2 - 1) ≤ num / den := by
    rw [le_div_iff₀ hd]
    calc (2 : ℚ) ^ ((num.log2 : Int) - den.log2 - 1) * den
        ≤ 2 ^ ((num.log2 : Int) - den.log2 - 1) * 2 ^ ((den.log2 : Int) + 1) :=
          mul_le_mul_of_nonneg_left hd''.le (by positivity)
      _ = 2 ^ (num.log2 : Int) := by
          rw [← zpow_add₀ two_ne_zero]
          congr 1
          omega
      _ ≤ num := hn
  have hhigh : (num : ℚ) / den < 2 ^ ((num.log2 : Int) - den.log2 + 1) := by
    rw [div_lt_iff₀ hd]
    calc (num : ℚ) < 2 ^ ((num.log2 : Int) + 1) := hn'
      _ = 2 ^ ((num.log2 : Int) - den.log2 + 1) * 2 ^ (den.log2 : Int) := by
          rw [← zpow_add₀ two_ne_zero]
          congr 1
          omega
      _ ≤ 2 ^ ((num.log2 : Int) - den.log2 + 1) * den :=
          mul_le_mul_of_nonneg_left hd' (by positivity)
  have hlt := ltPow_iff 2 num two_pos hden ((num.log2 : Int) - den.log2)
  rw [Nat.cast_ofNat] at hlt
  rw [floorLog2]
  cases h : ltPow 2 num den ((num.log2 : Int) - den.log2) with
  | true =>
    rw [if_pos rfl]
    refine ⟨hlow, ?_⟩
    rw [sub_add_cancel]
    exact hlt.mp h
  | false =>
    rw [if_neg Bool.false_ne_true]
    refine ⟨?_, hhigh⟩
    rw [← not_lt, ← hlt, h]
    exact Bool.false_ne_true

theorem floorLog2_eq (hnum : 0 < num) (hden : 0 < den) (hlow : (2 : ℚ) ^ k ≤ num / den)
    (hhigh : (num : ℚ) / den < 2 ^ (k + 1)) : floorLog2 num den = k := by
  obtain ⟨h, h'⟩ := floorLog2_spec hnum hden
  exact zpow_unique one_lt_two h h' hlow hhigh

end

/-! ## The nearest double -/

section

variable {num den n d M m c : Nat} {e : Int}

/-- The quotient, rounded to the nearest number, the even one of two. -/
def roundHalfEven (n d : Nat) : Nat :=
  if d < 2 * (n % d) || (2 * (n % d) = d && n / d % 2 = 1) then n / d + 1 else n / d

/-- The exponent of the last bit of the mantissa. -/
def lastBit (num den : Nat) : Int := max (floorLog2 num den - 52) (-1074)

/-- What becomes of a rounded mantissa. -/
def carry (m : Nat) (e : Int) : Option (Nat × Int) :=
  let x := if m = Nat.pow 2 53 then (Nat.pow 2 52, e + 1) else (m, e)
  if 971 < x.2 then none else some x

theorem roundFloat64_eq (hnum : 0 < num) (den : Nat) : roundFloat64 num den =
    carry (roundHalfEven (num * Nat.pow 2 (-lastBit num den).toNat)
      (den * Nat.pow 2 (lastBit num den).toNat)) (lastBit num den) := by
  rw [roundFloat64, if_neg (Nat.pos_iff_ne_zero.mp hnum), roundHalfEven, carry, lastBit]

theorem roundHalfEven_eq (hd : 0 < d) (hlow : 2 * (M * d) < 2 * n + d)
    (hhigh : 2 * n < 2 * (M * d) + d) : roundHalfEven n d = M := by
  have hmod := Nat.div_add_mod n d
  have hlt := Nat.mod_lt n hd
  rw [Nat.mul_comm d] at hmod
  rw [roundHalfEven]
  rcases Nat.lt_or_ge n (M * d) with h | h
  · have hq : n / d < M := (Nat.div_lt_iff_lt_mul hd).mpr h
    have hM : M ≤ n / d + 1 := by
      by_contra hM
      have hle : (n / d + 2) * d ≤ M * d := Nat.mul_le_mul_right d (by omega)
      rw [Nat.add_mul] at hle
      omega
    obtain rfl : M = n / d + 1 := by omega
    rw [Nat.add_mul] at hlow
    have hup : d < 2 * (n % d) := by omega
    rw [decide_eq_true hup, Bool.true_or, if_pos rfl]
  · have hq : M ≤ n / d := (Nat.le_div_iff_mul_le hd).mpr h
    have hM : n / d ≤ M := by
      by_contra hM
      have hle : (M + 1) * d ≤ n / d * d := Nat.mul_le_mul_right d (by omega)
      rw [Nat.add_mul] at hle
      omega
    obtain rfl : M = n / d := by omega
    have hnot : ¬ d < 2 * (n % d) := by omega
    have hne : ¬ 2 * (n % d) = d := by omega
    rw [decide_eq_false hnot, decide_eq_false hne, Bool.false_or, Bool.false_and,
      if_neg Bool.false_ne_true]

theorem roundHalfEven_scale (hc : 0 < c) (n d : Nat) :
    roundHalfEven (c * n) (c * d) = roundHalfEven n d := by
  have hlt : (c * d < c * (2 * (n % d))) = (d < 2 * (n % d)) :=
    propext (Nat.mul_lt_mul_left hc)
  have heq : (c * (2 * (n % d)) = c * d) = (2 * (n % d) = d) :=
    propext (Nat.mul_right_inj (Nat.pos_iff_ne_zero.mp hc))
  rw [roundHalfEven, roundHalfEven, Nat.mul_div_mul_left n d hc, Nat.mul_mod_mul_left,
    Nat.mul_left_comm 2 c]
  simp only [hlt, heq]

/-- Only the value of the fraction counts. -/
theorem roundFloat64_scale (hc : 0 < c) (num : Nat) (hden : 0 < den) :
    roundFloat64 (c * num) (c * den) = roundFloat64 num den := by
  rcases Nat.eq_zero_or_pos num with rfl | hnum
  · rw [Nat.mul_zero, roundFloat64, if_pos rfl, roundFloat64, if_pos rfl]
  · have hcq : (c : ℚ) ≠ 0 := Nat.cast_ne_zero.mpr (Nat.pos_iff_ne_zero.mp hc)
    have hratio : ((c * num : Nat) : ℚ) / ((c * den : Nat) : ℚ) = num / den := by
      rw [Nat.cast_mul, Nat.cast_mul, mul_div_mul_left _ _ hcq]
    have hlog : floorLog2 (c * num) (c * den) = floorLog2 num den := by
      obtain ⟨h, h'⟩ := floorLog2_spec hnum hden
      apply floorLog2_eq (Nat.mul_pos hc hnum) (Nat.mul_pos hc hden)
      · rw [hratio]
        exact h
      · rw [hratio]
        exact h'
    have hbit : lastBit (c * num) (c * den) = lastBit num den := by
      rw [lastBit, lastBit, hlog]
    rw [roundFloat64_eq (Nat.mul_pos hc hnum), roundFloat64_eq hnum, hbit, Nat.mul_assoc,
      Nat.mul_assoc, roundHalfEven_scale hc]

theorem roundFloat64_congr {num' den' : Nat} (hden : 0 < den) (hden' : 0 < den')
    (h : (num : ℚ) / den = num' / den') : roundFloat64 num den = roundFloat64 num' den' := by
  have hd : (den : ℚ) ≠ 0 := Nat.cast_ne_zero.mpr (Nat.pos_iff_ne_zero.mp hden)
  have hd' : (den' : ℚ) ≠ 0 := Nat.cast_ne_zero.mpr (Nat.pos_iff_ne_zero.mp hden')
  have hcross : num * den' = num' * den := by
    rw [div_eq_div_iff hd hd'] at h
    exact_mod_cast h
  rw [← roundFloat64_scale hden' num hden, ← roundFloat64_scale hden num' hden',
    Nat.mul_comm den' num, hcross, Nat.mul_comm num', Nat.mul_comm den' den]

/-- A mantissa of at most 53 bits, with all of them unless the exponent is the least. -/
structure Fits (m : Nat) (e : Int) : Prop where
  bits : m < 2 ^ 53
  low : -1074 ≤ e
  high : e ≤ 971
  full : 2 ^ 52 ≤ m ∨ e = -1074

theorem scaled_div (num den : Nat) (e : Int) :
    ((num * Nat.pow 2 (-e).toNat : Nat) : ℚ) / ((den * Nat.pow 2 e.toNat : Nat) : ℚ) =
      num / den * 2 ^ (-e) := by
  have h := pow_toNat_div 2 two_pos num den (-e)
  rw [neg_neg, Nat.cast_ofNat] at h
  exact h

theorem div_le_roundHalfEven (n d : Nat) : n / d ≤ roundHalfEven n d := by
  rw [roundHalfEven]
  split
  · exact Nat.le_succ _
  · exact Nat.le_refl _

theorem roundHalfEven_le (n d : Nat) : roundHalfEven n d ≤ n / d + 1 := by
  rw [roundHalfEven]
  split
  · exact Nat.le_refl _
  · exact Nat.le_succ _

/-- In units of the last bit a fraction has at most 53 bits. -/
theorem scaled_lt (hnum : 0 < num) (hden : 0 < den) :
    num * Nat.pow 2 (-lastBit num den).toNat / (den * Nat.pow 2 (lastBit num den).toNat) <
      2 ^ 53 := by
  have hpos : 0 < den * Nat.pow 2 (lastBit num den).toNat :=
    Nat.mul_pos hden (Nat.pow_pos two_pos)
  have hposq : (0 : ℚ) < ((den * Nat.pow 2 (lastBit num den).toNat : Nat) : ℚ) :=
    Nat.cast_pos.mpr hpos
  have hle : floorLog2 num den + 1 ≤ 53 + lastBit num den := by
    rw [lastBit]
    omega
  have hq : (num : ℚ) / den * 2 ^ (-lastBit num den) < 2 ^ 53 := by
    calc (num : ℚ) / den * 2 ^ (-lastBit num den)
        < 2 ^ (53 + lastBit num den) * 2 ^ (-lastBit num den) := by
          apply mul_lt_mul_of_pos_right _ (by positivity)
          exact lt_of_lt_of_le (floorLog2_spec hnum hden).2 (zpow_le_zpow_right₀ one_le_two hle)
      _ = 2 ^ 53 := by
          rw [← zpow_add₀ two_ne_zero, add_neg_cancel_right]
          rfl
  rw [Nat.div_lt_iff_lt_mul hpos]
  rw [← scaled_div, div_lt_iff₀ hposq] at hq
  exact_mod_cast hq

/-- It has all of them unless the exponent is the least. -/
theorem le_scaled (hnum : 0 < num) (hden : 0 < den) :
    2 ^ 52 ≤ num * Nat.pow 2 (-lastBit num den).toNat / (den * Nat.pow 2 (lastBit num den).toNat) ∨
      lastBit num den = -1074 := by
  have hpos : 0 < den * Nat.pow 2 (lastBit num den).toNat :=
    Nat.mul_pos hden (Nat.pow_pos two_pos)
  have hposq : (0 : ℚ) < ((den * Nat.pow 2 (lastBit num den).toNat : Nat) : ℚ) :=
    Nat.cast_pos.mpr hpos
  rcases max_choice (floorLog2 num den - 52) (-1074) with hmax | hmax
  · left
    have hbit : lastBit num den = floorLog2 num den - 52 := hmax
    have hq : (2 : ℚ) ^ 52 ≤ num / den * 2 ^ (-lastBit num den) := by
      calc (2 : ℚ) ^ 52 = 2 ^ floorLog2 num den * 2 ^ (-lastBit num den) := by
            rw [← zpow_add₀ two_ne_zero, hbit, show floorLog2 num den +
              -(floorLog2 num den - 52) = ((52 : Nat) : Int) by omega, zpow_natCast]
        _ ≤ num / den * 2 ^ (-lastBit num den) :=
            mul_le_mul_of_nonneg_right (floorLog2_spec hnum hden).1 (by positivity)
    rw [Nat.le_div_iff_mul_le hpos]
    rw [← scaled_div, le_div_iff₀ hposq] at hq
    exact_mod_cast hq
  · exact .inr hmax

theorem carry_fits {k : Int} (h : carry M k = some (m, e)) (hbits : M ≤ 2 ^ 53) (hlow : -1074 ≤ k)
    (hfull : 2 ^ 52 ≤ M ∨ k = -1074) : Fits m e := by
  unfold carry at h
  by_cases hM : M = Nat.pow 2 53
  · simp only [if_pos hM] at h
    by_cases hbig : 971 < k + 1
    · rw [if_pos hbig] at h
      contradiction
    · rw [if_neg hbig] at h
      cases h
      exact ⟨by decide, by omega, by omega, .inl (by decide)⟩
  · simp only [if_neg hM] at h
    have hM' : M ≠ 2 ^ 53 := hM
    by_cases hbig : 971 < k
    · rw [if_pos hbig] at h
      contradiction
    · rw [if_neg hbig] at h
      cases h
      exact ⟨by omega, hlow, by omega, hfull⟩

theorem roundFloat64_fits (hnum : 0 < num) (hden : 0 < den)
    (h : roundFloat64 num den = some (m, e)) : Fits m e := by
  rw [roundFloat64_eq hnum] at h
  apply carry_fits h
  · exact Nat.le_trans (roundHalfEven_le _ _) (scaled_lt hnum hden)
  · exact le_max_right _ _
  · rcases le_scaled hnum hden with hfull | hleast
    · exact .inl (Nat.le_trans hfull (div_le_roundHalfEven _ _))
    · exact .inr hleast

/-! ## Fractions near a double -/

/-- The mantissa is the number that the fraction, in units of the last bit, is nearest to. -/
theorem roundFloat64_of_lastBit (hnum : 0 < num) (hden : 0 < den) (hbit : lastBit num den = e)
    (hlow : (M - 1 / 2 : ℚ) * 2 ^ e < num / den) (hhigh : (num : ℚ) / den < (M + 1 / 2) * 2 ^ e) :
    roundFloat64 num den = carry M e := by
  have hpos : 0 < den * Nat.pow 2 e.toNat := Nat.mul_pos hden (Nat.pow_pos two_pos)
  have hposq : (0 : ℚ) < ((den * Nat.pow 2 e.toNat : Nat) : ℚ) := Nat.cast_pos.mpr hpos
  have hunit : (0 : ℚ) < 2 ^ (-e) := by positivity
  have hcancel : (2 : ℚ) ^ e * 2 ^ (-e) = 1 := by
    rw [← zpow_add₀ two_ne_zero, add_neg_cancel, zpow_zero]
  have hvalue := scaled_div num den e
  have hlow' := mul_lt_mul_of_pos_right hlow hunit
  have hhigh' := mul_lt_mul_of_pos_right hhigh hunit
  rw [mul_assoc, hcancel, mul_one, ← hvalue, lt_div_iff₀ hposq] at hlow'
  rw [mul_assoc, hcancel, mul_one, ← hvalue, div_lt_iff₀ hposq] at hhigh'
  rw [roundFloat64_eq hnum, hbit]
  congr 1
  apply roundHalfEven_eq hpos
  · have h : (2 * (M * ((den * Nat.pow 2 e.toNat : Nat) : ℚ)) : ℚ) <
        2 * ((num * Nat.pow 2 (-e).toNat : Nat) : ℚ) + ((den * Nat.pow 2 e.toNat : Nat) : ℚ) := by
      linarith
    exact_mod_cast h
  · have h : (2 * ((num * Nat.pow 2 (-e).toNat : Nat) : ℚ) : ℚ) <
        2 * (M * ((den * Nat.pow 2 e.toNat : Nat) : ℚ)) + ((den * Nat.pow 2 e.toNat : Nat) : ℚ) := by
      linarith
    exact_mod_cast h

theorem num_pos {r : ℚ} (hr : 0 ≤ r) (h : r < (num : ℚ) / den) : 0 < num := by
  rcases Nat.eq_zero_or_pos num with rfl | hnum
  · rw [Nat.cast_zero, zero_div] at h
    linarith
  · exact hnum

/-- A fraction less than half a unit away, with a mantissa that is as long. -/
theorem roundFloat64_near (hden : 0 < den) (hm : 0 < m) (hfits : Fits m e)
    (hlow : (m - 1 / 2 : ℚ) * 2 ^ e < num / den) (hhigh : (num : ℚ) / den < (m + 1 / 2) * 2 ^ e)
    (hlong : (2 : ℚ) ^ 52 * 2 ^ e ≤ num / den ∨ e = -1074) :
    roundFloat64 num den = some (m, e) := by
  have hunit : (0 : ℚ) < 2 ^ e := by positivity
  have hm₁ : (1 : ℚ) ≤ m := Nat.one_le_cast.mpr hm
  have hbits : (m : ℚ) + 1 ≤ 2 ^ 53 := by exact_mod_cast hfits.bits
  have hnum : 0 < num := num_pos (mul_nonneg (by linarith) hunit.le) hlow
  have htop : (num : ℚ) / den < 2 ^ (53 + e) := by
    calc (num : ℚ) / den < (m + 1 / 2) * 2 ^ e := hhigh
      _ ≤ 2 ^ 53 * 2 ^ e := mul_le_mul_of_nonneg_right (by linarith) hunit.le
      _ = 2 ^ (53 + e) := by
          rw [zpow_add₀ two_ne_zero]
          rfl
  have hbit : lastBit num den = e := by
    rcases hlong with hlong | hleast
    · have hlog : floorLog2 num den = 52 + e := by
        apply floorLog2_eq hnum hden
        · rw [zpow_add₀ two_ne_zero]
          exact hlong
        · rw [show 52 + e + 1 = 53 + e by ring]
          exact htop
      have := hfits.low
      rw [lastBit, hlog]
      omega
    · have hlt : floorLog2 num den < 53 + e :=
        (zpow_lt_zpow_iff_right₀ one_lt_two).mp
          (lt_of_le_of_lt (floorLog2_spec hnum hden).1 htop)
      rw [lastBit]
      omega
  have hne : m ≠ Nat.pow 2 53 := Nat.ne_of_lt hfits.bits
  have hsmall : ¬ 971 < e := Int.not_lt.mpr hfits.high
  rw [roundFloat64_of_lastBit hnum hden hbit hlow hhigh, carry]
  simp only [if_neg hne, if_neg hsmall]

/-- Below a power of two the units are half as large. -/
theorem roundFloat64_below (hden : 0 < den) (hfits : Fits (2 ^ 52) e) (he : e ≠ -1074)
    (hlow : (2 ^ 52 - 1 / 4 : ℚ) * 2 ^ e < num / den) (hhigh : (num : ℚ) / den < 2 ^ 52 * 2 ^ e) :
    roundFloat64 num den = some (2 ^ 52, e) := by
  have hunit : (0 : ℚ) < 2 ^ (e - 1) := by positivity
  have hdouble : (2 : ℚ) ^ e = 2 * 2 ^ (e - 1) := by
    rw [← zpow_one_add₀ two_ne_zero, add_sub_cancel]
  rw [hdouble] at hlow hhigh
  have hnum : 0 < num := num_pos (mul_nonneg (by norm_num) (by positivity)) hlow
  have hbit : lastBit num den = e - 1 := by
    have hlog : floorLog2 num den = 51 + e := by
      apply floorLog2_eq hnum hden
      · rw [show 51 + e = ((52 : Nat) : Int) + (e - 1) by omega, zpow_add₀ two_ne_zero,
          zpow_natCast]
        linarith
      · rw [show 51 + e + 1 = ((53 : Nat) : Int) + (e - 1) by omega, zpow_add₀ two_ne_zero,
          zpow_natCast]
        linarith
    have := hfits.low
    rw [lastBit, hlog]
    omega
  have hsmall : ¬ 971 < e := Int.not_lt.mpr hfits.high
  rw [roundFloat64_of_lastBit (M := 2 ^ 53) hnum hden hbit, carry]
  · simp only [Nat.pow_eq, if_true, sub_add_cancel, if_neg hsmall]
  · rw [Nat.cast_pow, Nat.cast_ofNat]
    linarith
  · rw [Nat.cast_pow, Nat.cast_ofNat]
    linarith

end

end Selebrow.Json
