import Selebrow.Text.Runes
import Selebrow.Text.Utf8

/-!
# Encoded characters are valid

The bytes of a character are told apart from what follows them, and nothing in them is
replaced.
-/

namespace Selebrow.Text

/-- `leadByte` on numbers. -/
def leadNat (n : Nat) : Option (Nat × Nat × Nat) :=
  if 194 ≤ n ∧ n ≤ 223 then some (1, 128, 191)
  else if n = 224 then some (2, 160, 191)
  else if n = 237 then some (2, 128, 159)
  else if 225 ≤ n ∧ n ≤ 239 then some (2, 128, 191)
  else if n = 240 then some (3, 144, 191)
  else if 241 ≤ n ∧ n ≤ 243 then some (3, 128, 191)
  else if n = 244 then some (3, 128, 143)
  else none

section

variable {n m k low high : Nat} {s t : GoString} {b : UInt8} {c : Char}

theorem leadByte_ofNat (h : n < 256) : leadByte (UInt8.ofNat n) =
    (leadNat n).map fun x => (x.1, UInt8.ofNat x.2.1, UInt8.ofNat x.2.2) := by
  have hall : ∀ n < 256, leadByte (UInt8.ofNat n) =
      (leadNat n).map fun x => (x.1, UInt8.ofNat x.2.1, UInt8.ofNat x.2.2) := by
    decide +kernel
  exact hall n h

theorem ofNat_le (hn : n < 256) (hm : m < 256) (h : n ≤ m) : UInt8.ofNat n ≤ UInt8.ofNat m := by
  rw [UInt8.le_iff_toNat_le, byte_toNat hn, byte_toNat hm]
  exact h

theorem follows_cons (hn : n < 256) (hhigh : high < 256) (hlow : low ≤ n) (hle : n ≤ high)
    (hs : follows k 0x80 0xBF s = true) :
    follows (k + 1) (UInt8.ofNat low) (UInt8.ofNat high) (UInt8.ofNat n :: s) = true := by
  rw [follows, Bool.and_eq_true, Bool.and_eq_true]
  exact ⟨⟨decide_eq_true (ofNat_le (Nat.lt_of_le_of_lt hlow hn) hn hlow),
    decide_eq_true (ofNat_le hn hhigh hle)⟩, hs⟩

theorem follows_next (hlow : 128 ≤ n) (hle : n ≤ 191) (hs : follows k 0x80 0xBF s = true) :
    follows (k + 1) 0x80 0xBF (UInt8.ofNat n :: s) = true :=
  follows_cons (by omega) (by decide) hlow hle hs

theorem runeLength_lead (hn : 128 ≤ n) (hlt : n < 256) (hlead : leadNat n = some (k, low, high))
    (hs : follows k (UInt8.ofNat low) (UInt8.ofNat high) s = true) :
    runeLength (UInt8.ofNat n :: s) = k + 1 := by
  have hbig : ¬ UInt8.ofNat n < 0x80 := by
    rw [UInt8.lt_iff_toNat_lt, byte_toNat hlt]
    show ¬ n < 128
    omega
  rw [runeLength, if_neg hbig, leadByte_ofNat hlt, hlead]
  show (if _ then _ else _) = _
  rw [if_pos hs]

/-- A character stands in front of the rest as one. -/
theorem runeLength_encode (c : Char) :
    ∃ b s, String.utf8EncodeChar c = b :: s ∧ ∀ t, runeLength (b :: (s ++ t)) = s.length + 1 := by
  have hvalid : c.val.toNat < 0xD800 ∨ 0xDFFF < c.val.toNat ∧ c.val.toNat < 0x110000 := c.valid
  rw [String.utf8EncodeChar]
  generalize c.val.toNat = v at hvalid
  split
  · refine ⟨_, [], rfl, fun t => ?_⟩
    have hsmall : UInt8.ofNat v < 0x80 := by
      rw [UInt8.lt_iff_toNat_lt, byte_toNat (by omega)]
      show v < 128
      omega
    rw [runeLength, if_pos hsmall]
    rfl
  split
  · refine ⟨_, [_], rfl, fun t => ?_⟩
    have hlead : leadNat (v / 64 % 32 + 192) = some (1, 128, 191) := by
      rw [leadNat, if_pos (by omega)]
    exact runeLength_lead (by omega) (by omega) hlead (follows_next (by omega) (by omega) rfl)
  split
  · refine ⟨_, [_, _], rfl, fun t => ?_⟩
    have htail : follows 1 0x80 0xBF (UInt8.ofNat (v % 64 + 128) :: t) = true :=
      follows_next (by omega) (by omega) rfl
    -- The lead byte narrows the range of the second one at both ends of the three byte
    -- characters' range and before the surrogates.
    by_cases hfirst : v / 4096 % 16 + 224 = 224
    · have hlead : leadNat (v / 4096 % 16 + 224) = some (2, 160, 191) := by
        rw [hfirst]
        rfl
      exact runeLength_lead (by omega) (by omega) hlead
        (follows_cons (by omega) (by decide) (by omega) (by omega) htail)
    by_cases hlast : v / 4096 % 16 + 224 = 237
    · have hlead : leadNat (v / 4096 % 16 + 224) = some (2, 128, 159) := by
        rw [hlast]
        rfl
      exact runeLength_lead (by omega) (by omega) hlead
        (follows_cons (by omega) (by decide) (by omega) (by omega) htail)
    · have hlead : leadNat (v / 4096 % 16 + 224) = some (2, 128, 191) := by
        rw [leadNat, if_neg (by omega), if_neg hfirst, if_neg hlast, if_pos (by omega)]
      exact runeLength_lead (by omega) (by omega) hlead
        (follows_next (by omega) (by omega) htail)
  · refine ⟨_, [_, _, _], rfl, fun t => ?_⟩
    have htail : follows 2 0x80 0xBF
        (UInt8.ofNat (v / 64 % 64 + 128) :: UInt8.ofNat (v % 64 + 128) :: t) = true :=
      follows_next (by omega) (by omega) (follows_next (by omega) (by omega) rfl)
    by_cases hfirst : v / 262144 % 8 + 240 = 240
    · have hlead : leadNat (v / 262144 % 8 + 240) = some (3, 144, 191) := by
        rw [hfirst]
        rfl
      exact runeLength_lead (by omega) (by omega) hlead
        (follows_cons (by omega) (by decide) (by omega) (by omega) htail)
    by_cases hlast : v / 262144 % 8 + 240 = 244
    · have hlead : leadNat (v / 262144 % 8 + 240) = some (3, 128, 143) := by
        rw [hlast]
        rfl
      exact runeLength_lead (by omega) (by omega) hlead
        (follows_cons (by omega) (by decide) (by omega) (by omega) htail)
    · have hlead : leadNat (v / 262144 % 8 + 240) = some (3, 128, 191) := by
        rw [leadNat, if_neg (by omega), if_neg (by omega), if_neg (by omega), if_neg (by omega),
          if_neg hfirst, if_pos (by omega)]
      exact runeLength_lead (by omega) (by omega) hlead
        (follows_next (by omega) (by omega) htail)

theorem toValidUTF8_encode (c : Char) (t : GoString) :
    toValidUTF8 (String.utf8EncodeChar c ++ t) = String.utf8EncodeChar c ++ toValidUTF8 t := by
  obtain ⟨b, s, hs, hlength⟩ := runeLength_encode c
  rw [hs, List.cons_append, toValidUTF8_rune (hlength t), List.take_left, List.drop_left]
  rfl

theorem toValidUTF8_ascii (h : b < 0x80) (t : GoString) :
    toValidUTF8 (b :: t) = b :: toValidUTF8 t := by
  have hone : runeLength (b :: t) = 0 + 1 := by
    rw [runeLength, if_pos h]
  rw [toValidUTF8_rune hone]
  rfl

theorem toValidUTF8_replacement (t : GoString) :
    toValidUTF8 (replacement ++ t) = replacement ++ toValidUTF8 t := by
  have hencode : replacement = String.utf8EncodeChar (Char.ofNat 0xFFFD) := by decide
  rw [hencode]
  exact toValidUTF8_encode _ t

end

end Selebrow.Text
