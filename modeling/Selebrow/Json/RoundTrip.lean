import Selebrow.Json.Rounding

/-!
# A number that is written leads back

The decimal that `formatFloat` writes for a double is one of those that round to it, as
seventeen digits are enough for one of them, and the text is read as that decimal.
-/

namespace Selebrow.Json

/-! ## Enough digits -/

section

variable {num den m n d : Nat} {e x : Int}

theorem log10_of_log2 : (List.range 2098).all (fun n =>
    !ltPow 10 (Nat.pow 2 ((n : Int) - 1074).toNat) (Nat.pow 2 (-((n : Int) - 1074)).toNat)
      (((n : Int) - 1074) * 30103 / 100000 - 1)) = true := by
  decide +kernel

theorem floorLog10_le (hnum : 0 < num) (hden : 0 < den) (hlow : -1074 ≤ floorLog2 num den)
    (hhigh : floorLog2 num den < 1024) : (10 : ℚ) ^ floorLog10 num den ≤ num / den := by
  have hlt : ∀ k : Int, ltPow 10 num den k = false → (10 : ℚ) ^ k ≤ num / den := by
    intro k hk
    have h := ltPow_iff 10 num (by decide) hden k
    rw [Nat.cast_ofNat] at h
    rw [← not_lt, ← h, hk]
    exact Bool.false_ne_true
  rw [floorLog10]
  generalize hk : floorLog2 num den * 30103 / 100000 = k
  cases h₁ : ltPow 10 num den (k + 1) with
  | false => exact hlt (k + 1) h₁
  | true =>
    cases h₂ : ltPow 10 num den k with
    | false => exact hlt k h₂
    | true =>
      show (10 : ℚ) ^ (k - 1) ≤ num / den
      have hn := List.all_eq_true.mp log10_of_log2 (floorLog2 num den + 1074).toNat
        (List.mem_range.mpr (by omega))
      have hcast : (((floorLog2 num den + 1074).toNat : Int)) - 1074 = floorLog2 num den := by
        omega
      rw [hcast, hk, Bool.not_eq_true'] at hn
      have hden₂ : 0 < Nat.pow 2 (-floorLog2 num den).toNat := Nat.pow_pos two_pos
      have hpow := ltPow_iff 10 (Nat.pow 2 (floorLog2 num den).toNat) (by decide) hden₂ (k - 1)
      have htwo := pow_toNat_div 2 two_pos 1 1 (floorLog2 num den)
      rw [Nat.one_mul, Nat.one_mul, Nat.cast_one, div_one, one_mul, Nat.cast_ofNat] at htwo
      rw [htwo, hn, Nat.cast_ofNat] at hpow
      have hle : (10 : ℚ) ^ (k - 1) ≤ 2 ^ floorLog2 num den := by
        rw [← not_lt, ← hpow]
        exact Bool.false_ne_true
      exact le_trans hle (floorLog2_spec hnum hden).1

/-- The number next to the quotient. -/
def nearest (n d : Nat) : Nat := if 2 * (n % d) ≤ d then n / d else n / d + 1

theorem nearest_near (hd : 0 < d) (n : Nat) :
    2 * (nearest n d * d) ≤ 2 * n + d ∧ 2 * n ≤ 2 * (nearest n d * d) + d := by
  have hmod := Nat.div_add_mod n d
  have hlt := Nat.mod_lt n hd
  rw [Nat.mul_comm d] at hmod
  rw [nearest]
  split
  · omega
  · rw [Nat.add_mul]
    omega

/-- It is at most one half away from the fraction. -/
theorem nearest_div (hd : 0 < d) (n : Nat) :
    (nearest n d : ℚ) ≤ n / d + 1 / 2 ∧ (n : ℚ) / d ≤ nearest n d + 1 / 2 := by
  have hdq : (0 : ℚ) < d := Nat.cast_pos.mpr hd
  obtain ⟨hnear, hnear'⟩ := nearest_near hd n
  have h : (2 * (nearest n d * d) : ℚ) ≤ 2 * n + d := by exact_mod_cast hnear
  have h' : (2 * n : ℚ) ≤ 2 * (nearest n d * d) + d := by exact_mod_cast hnear'
  constructor
  · rw [← sub_le_iff_le_add, le_div_iff₀ hdq]
    linarith
  · rw [div_le_iff₀ hdq]
    linarith

/-- What the digits and the power of ten round to. -/
def roundDecimal (d : Nat) (x : Int) : Option (Nat × Int) :=
  roundFloat64 (d * Nat.pow 10 x.toNat) (Nat.pow 10 (-x).toNat)

theorem decimal_div (d : Nat) (x : Int) :
    ((d * Nat.pow 10 x.toNat : Nat) : ℚ) / ((Nat.pow 10 (-x).toNat : Nat) : ℚ) = d * 10 ^ x := by
  have h := pow_toNat_div 10 (by decide) d 1 x
  rw [Nat.one_mul, Nat.cast_one, div_one, Nat.cast_ofNat] at h
  exact h

theorem roundDecimal_congr {d' : Nat} {x' : Int} (h : (d : ℚ) * 10 ^ x = d' * 10 ^ x') :
    roundDecimal d x = roundDecimal d' x' := by
  apply roundFloat64_congr (Nat.pow_pos (by decide)) (Nat.pow_pos (by decide))
  exact (decimal_div d x).trans (h.trans (decimal_div d' x').symm)

theorem double_div (m : Nat) (e : Int) :
    ((m * Nat.pow 2 e.toNat : Nat) : ℚ) / ((Nat.pow 2 (-e).toNat : Nat) : ℚ) = m * 2 ^ e := by
  have h := pow_toNat_div 2 two_pos m 1 e
  rw [Nat.one_mul, Nat.cast_one, div_one, Nat.cast_ofNat] at h
  exact h

/-- A decimal within half a unit of its last digit rounds to the double, when that unit is
small enough. -/
theorem roundDecimal_near (hm : 0 < m) (hfits : Fits m e) (hunit : (10 : ℚ) ^ x * 10 ^ 16 ≤ m * 2 ^ e)
    (hlow : (m : ℚ) * 2 ^ e ≤ (d + 1 / 2) * 10 ^ x) (hhigh : (d - 1 / 2 : ℚ) * 10 ^ x ≤ m * 2 ^ e) :
    roundDecimal d x = some (m, e) := by
  have hten : (0 : ℚ) < 10 ^ x := by positivity
  have htwo : (0 : ℚ) < 2 ^ e := by positivity
  have hm₁ : (1 : ℚ) ≤ m := Nat.one_le_cast.mpr hm
  have hbits : (m : ℚ) + 1 ≤ 2 ^ 53 := by exact_mod_cast hfits.bits
  have hden : 0 < Nat.pow 10 (-x).toNat := Nat.pow_pos (by decide)
  have hvalue := decimal_div d x
  have hsmall : (10 : ℚ) ^ x < 2 ^ e := by
    have hprod : (m : ℚ) * 2 ^ e ≤ 2 ^ 53 * 2 ^ e :=
      mul_le_mul_of_nonneg_right (by linarith) htwo.le
    linarith
  rw [roundDecimal]
  by_cases hlong : (2 : ℚ) ^ 52 * 2 ^ e ≤ d * 10 ^ x ∨ e = -1074
  · apply roundFloat64_near hden hm hfits
    · rw [hvalue]
      linarith
    · rw [hvalue]
      linarith
    · rw [hvalue]
      exact hlong
  · rw [not_or, not_le] at hlong
    have hfull := hfits.full.resolve_right hlong.2
    have hm₂ : m = 2 ^ 52 := by
      by_contra hne
      have hgt : (2 : ℚ) ^ 52 + 1 ≤ m := by
        have : 2 ^ 52 + 1 ≤ m := by omega
        exact_mod_cast this
      have hprod : ((2 : ℚ) ^ 52 + 1) * 2 ^ e ≤ m * 2 ^ e :=
        mul_le_mul_of_nonneg_right hgt htwo.le
      linarith
    subst hm₂
    rw [Nat.cast_pow, Nat.cast_ofNat] at hunit hlow hhigh
    apply roundFloat64_below hden hfits hlong.2
    · rw [hvalue]
      linarith
    · rw [hvalue]
      exact hlong.1

theorem floorLog2_double (hm : 0 < m) (hfits : Fits m e) :
    -1074 ≤ floorLog2 (m * Nat.pow 2 e.toNat) (Nat.pow 2 (-e).toNat) ∧
      floorLog2 (m * Nat.pow 2 e.toNat) (Nat.pow 2 (-e).toNat) < 1024 := by
  have hnum : 0 < m * Nat.pow 2 e.toNat := Nat.mul_pos hm (Nat.pow_pos two_pos)
  have hden : 0 < Nat.pow 2 (-e).toNat := Nat.pow_pos two_pos
  have htwo : (0 : ℚ) < 2 ^ e := by positivity
  have hm₁ : (1 : ℚ) ≤ m := Nat.one_le_cast.mpr hm
  have hbits : (m : ℚ) < 2 ^ 53 := by exact_mod_cast hfits.bits
  obtain ⟨hlow, hhigh⟩ := floorLog2_spec hnum hden
  rw [double_div] at hlow hhigh
  generalize floorLog2 (m * Nat.pow 2 e.toNat) (Nat.pow 2 (-e).toNat) = k at hlow hhigh
  constructor
  · have h : (2 : ℚ) ^ e < 2 ^ (k + 1) := lt_of_le_of_lt (le_mul_of_one_le_left htwo.le hm₁) hhigh
    have := (zpow_lt_zpow_iff_right₀ one_lt_two).mp h
    have := hfits.low
    omega
  · have h : (2 : ℚ) ^ k < 2 ^ (53 + e) := by
      rw [zpow_add₀ two_ne_zero]
      exact lt_of_le_of_lt hlow (mul_lt_mul_of_pos_right hbits htwo)
    have := (zpow_lt_zpow_iff_right₀ one_lt_two).mp h
    have := hfits.high
    omega

theorem mem_candidates {y : Nat × Int} (h : y ∈ candidates m e n) :
    roundDecimal y.1 y.2 = some (m, e) := by
  rw [candidates] at h
  obtain ⟨d, hd, rfl⟩ := List.mem_map.mp h
  exact of_decide_eq_true (List.mem_filter.mp hd).2

theorem scaled_double (m : Nat) (e x : Int) :
    ((m * Nat.pow 2 e.toNat * Nat.pow 10 (-x).toNat : Nat) : ℚ) /
      ((Nat.pow 2 (-e).toNat * Nat.pow 10 x.toNat : Nat) : ℚ) = m * 2 ^ e * 10 ^ (-x) := by
  have h := pow_toNat_div 10 (by decide) (m * Nat.pow 2 e.toNat) (Nat.pow 2 (-e).toNat) (-x)
  rw [neg_neg, double_div, Nat.cast_ofNat] at h
  exact h

/-- The number next to the double, in units of the last of the digits, leads back to it. -/
theorem roundDecimal_nearest (hm : 0 < m) (hfits : Fits m e)
    (hunit : (10 : ℚ) ^ x * 10 ^ 16 ≤ m * 2 ^ e) :
    roundDecimal (nearest (m * Nat.pow 2 e.toNat * Nat.pow 10 (-x).toNat)
      (Nat.pow 2 (-e).toNat * Nat.pow 10 x.toNat)) x = some (m, e) := by
  have hd : 0 < Nat.pow 2 (-e).toNat * Nat.pow 10 x.toNat :=
    Nat.mul_pos (Nat.pow_pos two_pos) (Nat.pow_pos (by decide))
  have hten : (0 : ℚ) < 10 ^ x := by positivity
  have hcancel : (10 : ℚ) ^ (-x) * 10 ^ x = 1 := by
    rw [← zpow_add₀ (by norm_num), neg_add_cancel, zpow_zero]
  obtain ⟨hhigh, hlow⟩ := nearest_div hd (m * Nat.pow 2 e.toNat * Nat.pow 10 (-x).toNat)
  rw [scaled_double] at hhigh hlow
  generalize nearest _ _ = M at hhigh hlow ⊢
  apply roundDecimal_near hm hfits hunit
  · have h := mul_le_mul_of_nonneg_right hlow hten.le
    rw [mul_assoc, hcancel, mul_one] at h
    exact h
  · have h := mul_le_mul_of_nonneg_right hhigh hten.le
    rw [add_mul, mul_assoc, hcancel, mul_one] at h
    linarith

/-- Seventeen digits are enough. -/
theorem candidates_ne_nil (hm : 0 < m) (hfits : Fits m e) : candidates m e 17 ≠ [] := by
  have hnum : 0 < m * Nat.pow 2 e.toNat := Nat.mul_pos hm (Nat.pow_pos two_pos)
  have hden : 0 < Nat.pow 2 (-e).toNat := Nat.pow_pos two_pos
  obtain ⟨hlow, hhigh⟩ := floorLog2_double hm hfits
  have hle := floorLog10_le hnum hden hlow hhigh
  rw [double_div] at hle
  rw [candidates]
  generalize floorLog10 (m * Nat.pow 2 e.toNat) (Nat.pow 2 (-e).toNat) = t at hle
  generalize hx : t - (((17 : Nat) : Int) - 1) = x
  have hunit : (10 : ℚ) ^ x * 10 ^ 16 ≤ m * 2 ^ e := by
    calc (10 : ℚ) ^ x * 10 ^ 16 = 10 ^ t := by
          rw [← zpow_natCast, ← zpow_add₀ (by norm_num), ← hx]
          congr 1
          omega
      _ ≤ m * 2 ^ e := hle
  have hround := roundDecimal_nearest hm hfits hunit
  intro hnil
  rw [List.map_eq_nil_iff, List.filter_eq_nil_iff] at hnil
  refine hnil (nearest (m * Nat.pow 2 e.toNat * Nat.pow 10 (-x).toNat)
    (Nat.pow 2 (-e).toNat * Nat.pow 10 x.toNat)) ?_ (decide_eq_true hround)
  rw [nearest]
  split
  · exact List.mem_cons_self
  · exact List.mem_cons_self

theorem shortest_rounds (hm : 0 < m) (hfits : Fits m e) :
    roundDecimal (shortest m e).1 (shortest m e).2 = some (m, e) := by
  rw [shortest]
  cases hl : (List.range 17).flatMap fun n => candidates m e (n + 1) with
  | nil =>
    rw [List.flatMap_eq_nil_iff] at hl
    exact absurd (hl 16 (by decide)) (candidates_ne_nil hm hfits)
  | cons y l =>
    have hy : y ∈ (List.range 17).flatMap fun n => candidates m e (n + 1) := by
      rw [hl]
      exact List.mem_cons_self
    obtain ⟨n, _, hn⟩ := List.mem_flatMap.mp hy
    exact mem_candidates hn

theorem trimZeros_rounds (fuel : Nat) (d : Nat) (x : Int) :
    roundDecimal (trimZeros fuel (d, x)).1 (trimZeros fuel (d, x)).2 = roundDecimal d x := by
  induction fuel generalizing d x with
  | zero => rfl
  | succ fuel ih =>
    rw [trimZeros]
    split
    · rename_i hd
      rw [ih]
      apply roundDecimal_congr
      have hten : d = d / 10 * 10 := by omega
      have hq : (d : ℚ) = ((d / 10 : Nat) : ℚ) * 10 := by exact_mod_cast hten
      rw [zpow_add_one₀ (by norm_num), hq]
      ring
    · rfl

end

/-! ## Digits as text -/

section

variable {w f t s : GoString} {n : Nat} {b : UInt8}

def AllDigits (s : GoString) : Prop := ∀ b ∈ s, 48 ≤ b ∧ b ≤ 57

theorem utf8EncodeChar_digitChar (h : n < 10) :
    String.utf8EncodeChar n.digitChar = [UInt8.ofNat (48 + n)] := by
  have hall : ∀ n < 10, String.utf8EncodeChar (Nat.digitChar n) = [UInt8.ofNat (48 + n)] := by
    decide
  exact hall n h

theorem bytes_toString (n : Nat) :
    bytes (toString n) = (Nat.toDigits 10 n).flatMap String.utf8EncodeChar :=
  congrArg (List.flatMap String.utf8EncodeChar) Nat.toList_repr

theorem bytes_toString_small (h : n < 10) : bytes (toString n) = [UInt8.ofNat (48 + n)] := by
  rw [bytes_toString, Nat.toDigits_of_lt_base h, List.flatMap_singleton, utf8EncodeChar_digitChar h]

theorem bytes_toString_large (h : 10 ≤ n) :
    bytes (toString n) = bytes (toString (n / 10)) ++ [UInt8.ofNat (48 + n % 10)] := by
  rw [bytes_toString, bytes_toString, Nat.toDigits_of_base_le (by decide) h, List.flatMap_append,
    List.flatMap_singleton, utf8EncodeChar_digitChar (Nat.mod_lt n (by decide))]

theorem digit_toNat (h : n < 10) : (UInt8.ofNat (48 + n)).toNat = 48 + n := by
  rw [UInt8.toNat_ofNat']
  omega

theorem digit_range (h : n < 10) : 48 ≤ UInt8.ofNat (48 + n) ∧ UInt8.ofNat (48 + n) ≤ 57 := by
  rw [UInt8.le_iff_toNat_le, UInt8.le_iff_toNat_le, digit_toNat h]
  constructor
  · show 48 ≤ 48 + n
    omega
  · show 48 + n ≤ 57
    omega

theorem foldl_digits (s : GoString) (a : Nat) :
    s.foldl (fun n b => 10 * n + (b.toNat - 48)) a = a * 10 ^ s.length + digitsValue s := by
  induction s generalizing a with
  | nil => rw [List.foldl_nil, digitsValue, List.foldl_nil, List.length_nil, Nat.pow_zero,
      Nat.mul_one, Nat.add_zero]
  | cons b s ih =>
    have hone : digitsValue (b :: s) = (10 * 0 + (b.toNat - 48)) * 10 ^ s.length + digitsValue s :=
      ih (10 * 0 + (b.toNat - 48))
    rw [List.foldl_cons, ih, hone, List.length_cons, Nat.pow_succ]
    ring

theorem digitsValue_append (s t : GoString) :
    digitsValue (s ++ t) = digitsValue s * 10 ^ t.length + digitsValue t := by
  rw [digitsValue, List.foldl_append, foldl_digits]
  rfl

theorem digitsValue_zeros (n : Nat) : digitsValue (zeros n) = 0 := by
  induction n with
  | zero => rfl
  | succ n ih =>
    rw [zeros, List.replicate_succ', digitsValue_append]
    show digitsValue (zeros n) * 10 + 0 = 0
    rw [ih]

theorem allDigits_zeros (n : Nat) : AllDigits (zeros n) := by
  intro b hb
  rw [List.eq_of_mem_replicate hb]
  decide

theorem AllDigits.append (hs : AllDigits s) (ht : AllDigits t) : AllDigits (s ++ t) := by
  intro b hb
  rcases List.mem_append.mp hb with hb | hb
  · exact hs b hb
  · exact ht b hb

theorem allDigits_toString (n : Nat) : AllDigits (bytes (toString n)) := by
  induction n using Nat.strong_induction_on with
  | _ n ih =>
    rcases Nat.lt_or_ge n 10 with h | h
    · rw [bytes_toString_small h]
      intro b hb
      rw [List.mem_singleton.mp hb]
      exact digit_range h
    · rw [bytes_toString_large h]
      apply (ih (n / 10) (by omega)).append
      intro b hb
      rw [List.mem_singleton.mp hb]
      exact digit_range (Nat.mod_lt n (by decide))

theorem toString_ne_nil (n : Nat) : bytes (toString n) ≠ [] := by
  rcases Nat.lt_or_ge n 10 with h | h
  · rw [bytes_toString_small h]
    exact List.cons_ne_nil _ _
  · rw [bytes_toString_large h]
    exact List.append_ne_nil_of_right_ne_nil _ (List.cons_ne_nil _ _)

/-- Digits are read as the number they were written for. -/
theorem digitsValue_toString (n : Nat) : digitsValue (bytes (toString n)) = n := by
  induction n using Nat.strong_induction_on with
  | _ n ih =>
    rcases Nat.lt_or_ge n 10 with h | h
    · rw [bytes_toString_small h]
      show 10 * 0 + ((UInt8.ofNat (48 + n)).toNat - 48) = n
      rw [digit_toNat h]
      omega
    · rw [bytes_toString_large h, digitsValue_append, ih (n / 10) (by omega)]
      show n / 10 * 10 + (10 * 0 + ((UInt8.ofNat (48 + n % 10)).toNat - 48)) = n
      rw [digit_toNat (Nat.mod_lt n (by decide))]
      omega

/-! ## Reading a number -/

/-- A whole part, a fraction and an exponent, each of the last two with its sign before it
if there is one. -/
structure Parts (w f t : GoString) : Prop where
  nonempty : w ≠ []
  whole : AllDigits w
  fraction : f = [] ∨ ∃ f', f = 46 :: f' ∧ AllDigits f'
  exponent : t = [] ∨ ∃ t', t = 101 :: t'

theorem takeWhile_append_stop {p : UInt8 → Bool} (hs : ∀ b ∈ s, p b = true)
    (ht : t = [] ∨ ∃ b t', t = b :: t' ∧ p b = false) :
    (s ++ t).takeWhile p = s ∧ (s ++ t).dropWhile p = t := by
  rw [List.takeWhile_append_of_pos hs, List.dropWhile_append_of_pos hs]
  rcases ht with rfl | ⟨b, t', rfl, hb⟩
  · exact ⟨List.append_nil s, rfl⟩
  · rw [List.takeWhile_cons, List.dropWhile_cons, hb]
    exact ⟨List.append_nil s, rfl⟩

theorem not_sign (h : 48 ≤ b ∧ b ≤ 57) : b ≠ 45 ∧ b ≠ 46 ∧ b ≠ 101 ∧ b ≠ 69 := by
  refine ⟨?_, ?_, ?_, ?_⟩
  · rintro rfl
    exact absurd h.1 (by decide)
  · rintro rfl
    exact absurd h.1 (by decide)
  · rintro rfl
    exact absurd h.2 (by decide)
  · rintro rfl
    exact absurd h.2 (by decide)

theorem parseNumber_parts (h : Parts w f t) (negative : Bool) :
    parseNumber ((if negative then bytes "-" else []) ++ (w ++ f ++ t)) =
      { negative := negative, digits := digitsValue (w ++ f.tail),
        exponent := exponentValue t.tail - f.tail.length } := by
  have hmantissa : ∀ b ∈ w ++ f, (b != 101 && b != 69) = true := by
    intro b hb
    rw [Bool.and_eq_true, bne_iff_ne, bne_iff_ne]
    rcases List.mem_append.mp hb with hb | hb
    · exact (not_sign (h.whole b hb)).2.2
    · rcases h.fraction with rfl | ⟨f', rfl, hf⟩
      · contradiction
      · rcases List.mem_cons.mp hb with rfl | hb
        · decide
        · exact (not_sign (hf b hb)).2.2
  have hexponent : t = [] ∨ ∃ b t', t = b :: t' ∧ (b != 101 && b != 69) = false := by
    rcases h.exponent with rfl | ⟨t', rfl⟩
    · exact .inl rfl
    · exact .inr ⟨101, t', rfl, rfl⟩
  have hwhole : ∀ b ∈ w, (b != 46) = true := fun b hb =>
    bne_iff_ne.mpr (not_sign (h.whole b hb)).2.1
  have hfraction : f = [] ∨ ∃ b f', f = b :: f' ∧ (b != 46) = false := by
    rcases h.fraction with rfl | ⟨f', rfl, _⟩
    · exact .inl rfl
    · exact .inr ⟨46, f', rfl, rfl⟩
  obtain ⟨htake, hdrop⟩ := takeWhile_append_stop hmantissa hexponent
  obtain ⟨htake', hdrop'⟩ := takeWhile_append_stop hwhole hfraction
  have hhead : ((w ++ f ++ t).head? = some 45) = False := by
    rw [List.append_assoc, List.head?_append]
    obtain ⟨b, w', rfl⟩ := List.exists_cons_of_ne_nil h.nonempty
    rw [eq_iff_iff, iff_false]
    intro heq
    exact (not_sign (h.whole b List.mem_cons_self)).1 (Option.some.inj heq)
  rw [parseNumber]
  cases negative with
  | true =>
    have htrue : ((bytes "-" ++ (w ++ f ++ t)).head? = some 45) = True := eq_true rfl
    have htail : (bytes "-" ++ (w ++ f ++ t)).tail = w ++ f ++ t := rfl
    simp only [if_true, htrue, htail, decide_true, htake, hdrop, htake', hdrop']
  | false =>
    simp only [Bool.false_eq_true, if_false, List.nil_append, hhead, decide_false, htake, hdrop,
      htake', hdrop']

/-- The text of a decimal. -/
def Reads (text : GoString) (d : Nat) (x : Int) : Prop :=
  ∃ w f t, Parts w f t ∧ text = w ++ f ++ t ∧
    (digitsValue (w ++ f.tail) : ℚ) * 10 ^ (exponentValue t.tail - f.tail.length) = d * 10 ^ x

variable {d : Nat} {x exp : Int} {digits : GoString}

theorem allDigits_take (h : AllDigits s) (n : Nat) : AllDigits (s.take n) :=
  fun b hb => h b (List.mem_of_mem_take hb)

theorem allDigits_drop (h : AllDigits s) (n : Nat) : AllDigits (s.drop n) :=
  fun b hb => h b (List.mem_of_mem_drop hb)

theorem reads_formatPlain (d : Nat) (x : Int) : Reads (formatPlain (bytes (toString d)) x) d x := by
  have hdigits := allDigits_toString d
  have hvalue := digitsValue_toString d
  have hne := toString_ne_nil d
  generalize bytes (toString d) = digits at hdigits hvalue hne ⊢
  rw [formatPlain]
  by_cases hx : 0 ≤ x
  · rw [if_pos hx]
    refine ⟨digits ++ zeros x.toNat, [], [], ?_, by rw [List.append_nil, List.append_nil], ?_⟩
    · exact ⟨List.append_ne_nil_of_left_ne_nil hne _, hdigits.append (allDigits_zeros _), .inl rfl,
        .inl rfl⟩
    · obtain ⟨n, rfl⟩ := Int.eq_ofNat_of_zero_le hx
      rw [List.tail_nil, List.append_nil, digitsValue_append, digitsValue_zeros, zeros,
        List.length_replicate, hvalue, Int.toNat_natCast, Nat.add_zero, Nat.cast_mul, Nat.cast_pow]
      show (d : ℚ) * 10 ^ n * 10 ^ (0 : Int) = d * 10 ^ (n : Int)
      rw [zpow_zero, mul_one, zpow_natCast]
  · rw [if_neg hx]
    dsimp only
    have hpoint : (0 : Int) - ((-x).toNat : Int) = x := by omega
    by_cases hlen : (-x).toNat < digits.length
    · rw [if_pos hlen]
      refine ⟨digits.take (digits.length - (-x).toNat),
        46 :: digits.drop (digits.length - (-x).toNat), [], ?_, (List.append_assoc _ _ _).trans
          (List.append_nil _).symm, ?_⟩
      · refine ⟨?_, allDigits_take hdigits _, .inr ⟨_, rfl, allDigits_drop hdigits _⟩, .inl rfl⟩
        intro hnil
        have hzero := congrArg List.length hnil
        rw [List.length_take, List.length_nil] at hzero
        omega
      · have hdrop : (digits.drop (digits.length - (-x).toNat)).length = (-x).toNat := by
          rw [List.length_drop]
          omega
        rw [List.tail_cons, List.take_append_drop, hvalue, hdrop]
        show (d : ℚ) * 10 ^ ((0 : Int) - ((-x).toNat : Int)) = d * 10 ^ x
        rw [hpoint]
    · rw [if_neg hlen]
      refine ⟨[48], 46 :: (zeros ((-x).toNat - digits.length) ++ digits), [], ?_,
        (List.append_nil _).symm, ?_⟩
      · refine ⟨List.cons_ne_nil _ _, ?_, .inr ⟨_, rfl, (allDigits_zeros _).append hdigits⟩, .inl rfl⟩
        intro b hb
        rw [List.mem_singleton.mp hb]
        decide
      · have hlen' : (zeros ((-x).toNat - digits.length) ++ digits).length = (-x).toNat := by
          rw [List.length_append, zeros, List.length_replicate]
          omega
        have hzero : digitsValue [48] = 0 := rfl
        rw [List.tail_cons, digitsValue_append, digitsValue_append, digitsValue_zeros, hzero, hvalue,
          hlen', Nat.zero_mul, Nat.zero_mul, Nat.zero_add, Nat.zero_add]
        show (d : ℚ) * 10 ^ ((0 : Int) - ((-x).toNat : Int)) = d * 10 ^ x
        rw [hpoint]

theorem exponentValue_written (exp : Int) :
    exponentValue (bytes (if exp < 0 then "-" else "+") ++ bytes (toString exp.natAbs)) = exp := by
  have hvalue := digitsValue_toString exp.natAbs
  by_cases h : exp < 0
  · rw [if_pos h]
    show -(digitsValue (bytes (toString exp.natAbs)) : Int) = exp
    rw [hvalue]
    omega
  · rw [if_neg h]
    show (digitsValue (bytes (toString exp.natAbs)) : Int) = exp
    rw [hvalue]
    omega

theorem reads_formatExponent (d : Nat) (x : Int) :
    Reads (formatExponent (bytes (toString d)) (x + (bytes (toString d)).length - 1)) d x := by
  have hdigits := allDigits_toString d
  have hvalue := digitsValue_toString d
  have hne := toString_ne_nil d
  generalize bytes (toString d) = digits at hdigits hvalue hne ⊢
  obtain ⟨b, rest, rfl⟩ := List.exists_cons_of_ne_nil hne
  have hfirst : AllDigits [b] := allDigits_take hdigits 1
  have hrest : AllDigits rest := allDigits_drop hdigits 1
  rw [formatExponent]
  generalize hexp : x + ((b :: rest).length : Int) - 1 = exp
  have hwritten := exponentValue_written exp
  rw [List.length_cons] at hexp
  refine ⟨[b], if (b :: rest).length = 1 then [] else bytes "." ++ rest,
    101 :: (bytes (if exp < 0 then "-" else "+") ++ bytes (toString exp.natAbs)), ?_, ?_, ?_⟩
  · refine ⟨List.cons_ne_nil _ _, hfirst, ?_, .inr ⟨_, rfl⟩⟩
    split
    · exact .inl rfl
    · exact .inr ⟨rest, rfl, hrest⟩
  · rw [List.append_assoc, List.append_assoc]
    rfl
  · rw [List.tail_cons, hwritten]
    by_cases hlen : (b :: rest).length = 1
    · obtain rfl : rest = [] := List.length_eq_zero_iff.mp (Nat.succ.inj hlen)
      rw [if_pos hlen, List.tail_nil, List.append_nil, hvalue]
      congr 2
      rw [List.length_nil] at hexp ⊢
      omega
    · rw [if_neg hlen]
      show (digitsValue (b :: rest) : ℚ) * 10 ^ (exp - (rest.length : Int)) = d * 10 ^ x
      rw [hvalue]
      congr 2
      omega

/-! ## Reading what was written -/

theorem parseFloat_reads {text : GoString} {m : Nat} {e : Int} (h : Reads text d x)
    (hround : roundDecimal d x = some (m, e)) (negative : Bool) :
    parseFloat (if negative then bytes "-" ++ text else text) =
      some { negative := negative, mantissa := m, exponent := e } := by
  obtain ⟨w, f, t, hparts, rfl, hvalue⟩ := h
  have hparse := parseNumber_parts hparts negative
  have htext : (if negative then bytes "-" ++ (w ++ f ++ t) else w ++ f ++ t) =
      (if negative then bytes "-" else []) ++ (w ++ f ++ t) := by
    cases negative <;> rfl
  rw [htext, parseFloat, hparse]
  show (roundDecimal _ _).map _ = _
  rw [roundDecimal_congr hvalue, hround]
  rfl

theorem parseFloat_formatFloat {v : Float64} (hm : 0 < v.mantissa)
    (hfits : Fits v.mantissa v.exponent) : parseFloat (formatFloat v) = some v := by
  have hround := trimZeros_rounds 17 (shortest v.mantissa v.exponent).1
    (shortest v.mantissa v.exponent).2
  rw [shortest_rounds hm hfits] at hround
  rw [formatFloat, if_neg (Nat.pos_iff_ne_zero.mp hm)]
  generalize trimZeros 17 (shortest v.mantissa v.exponent) = y at hround ⊢
  obtain ⟨d, x⟩ := y
  dsimp only at hround ⊢
  apply parseFloat_reads (d := d) (x := x) _ hround v.negative
  split
  · exact reads_formatExponent d x
  · exact reads_formatPlain d x

/-- A double without the exponent of a zero. -/
def Float64.normalize (v : Float64) : Float64 :=
  if v.mantissa = 0 then { v with exponent := 0 } else v

/-- The double that a literal is decoded into. -/
def floatOf (literal : GoString) : Option Float64 := (parseFloat literal).map Float64.normalize

theorem parseFloat_fits {literal : GoString} {v : Float64} (h : parseFloat literal = some v) :
    v.mantissa = 0 ∨ Fits v.mantissa v.exponent := by
  rw [parseFloat, Option.map_eq_some_iff] at h
  obtain ⟨⟨m, e⟩, hround, rfl⟩ := h
  rcases Nat.eq_zero_or_pos
      ((parseNumber literal).digits * Nat.pow 10 (parseNumber literal).exponent.toNat) with hz | hpos
  · rw [roundFloat64, if_pos hz] at hround
    cases hround
    exact .inl rfl
  · exact .inr (roundFloat64_fits hpos (Nat.pow_pos (by decide)) hround)

/-- A number that is decoded, encoded and decoded again is the same. -/
theorem floatOf_reencode (literal : GoString) : floatOf (reencode literal) = floatOf literal := by
  rw [reencode]
  cases h : parseFloat literal with
  | none => rfl
  | some v =>
    show floatOf (formatFloat v) = floatOf literal
    rw [floatOf, floatOf, h]
    rcases Nat.eq_zero_or_pos v.mantissa with hz | hpos
    · have hzero : Reads (bytes "0") 0 0 := reads_formatPlain 0 0
      rw [formatFloat, if_pos hz, parseFloat_reads hzero rfl v.negative]
      show some (Float64.normalize _) = some (Float64.normalize v)
      rw [Float64.normalize, Float64.normalize, if_pos rfl, if_pos hz, hz]
    · rw [parseFloat_formatFloat hpos ((parseFloat_fits h).resolve_left
        (Nat.pos_iff_ne_zero.mp hpos))]

theorem parseFloat_isSome (literal : GoString) :
    (parseFloat literal).isSome = (floatOf literal).isSome :=
  Option.isSome_map.symm

end

end Selebrow.Json
