import Selebrow.Go

/-!
# Hexadecimal digits

The digits from ten on are the letters from `base` on, `a` or `A`.
-/

namespace Selebrow.Text

def hexDigit (base n : UInt8) : UInt8 := if n < 10 then 48 + n else base + (n - 10)

/-- Both cases are read. -/
def unhex (b : UInt8) : Option UInt8 :=
  if 48 ≤ b ∧ b ≤ 57 then some (b - 48)
  else if 97 ≤ b ∧ b ≤ 102 then some (b - 97 + 10)
  else if 65 ≤ b ∧ b ≤ 70 then some (b - 65 + 10)
  else none

theorem forall_lt_sixteen {P : UInt8 → Prop} [DecidablePred P]
    (h : ∀ k < 16, P (UInt8.ofNat k)) {n : UInt8} (hn : n < 16) : P n := by
  have hk := h n.toNat (UInt8.lt_iff_toNat_lt.mp hn)
  rw [UInt8.ofNat_toNat] at hk
  exact hk

theorem unhex_upper {n : UInt8} (h : n < 16) : unhex (hexDigit 65 n) = some n :=
  forall_lt_sixteen (P := fun n => unhex (hexDigit 65 n) = some n) (by decide) h

theorem unhex_lower {n : UInt8} (h : n < 16) : unhex (hexDigit 97 n) = some n :=
  forall_lt_sixteen (P := fun n => unhex (hexDigit 97 n) = some n) (by decide) h

/-- The two halves of a byte. -/
theorem high_lt (b : UInt8) : b / 16 < 16 := by
  rw [UInt8.lt_iff_toNat_lt, UInt8.toNat_div]
  have hb := UInt8.toNat_lt b
  show b.toNat / 16 < 16
  omega

theorem low_lt (b : UInt8) : b % 16 < 16 := by
  rw [UInt8.lt_iff_toNat_lt, UInt8.toNat_mod]
  show b.toNat % 16 < 16
  omega

theorem byte_of_halves (b : UInt8) : b / 16 * 16 + b % 16 = b := by
  rw [← UInt8.toNat_inj, UInt8.toNat_add, UInt8.toNat_mul, UInt8.toNat_div, UInt8.toNat_mod]
  have hb := UInt8.toNat_lt b
  show (b.toNat / 16 * 16 % 256 + b.toNat % 16) % 256 = b.toNat
  omega

end Selebrow.Text
