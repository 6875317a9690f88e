import Mathlib.Algebra.Group.Nat.Defs
import Selebrow.Text.Runes

/-!
# Quoted text

`fmt.Sprintf("%q", s)` for text that is valid UTF-8.  Which characters are printed as they are
is a parameter, `unicode.IsPrint`.
-/

namespace Selebrow.Text

/-- Hexadecimal digits, the highest first. -/
def hexDigits : Nat → Nat → List Char
  | 0, _ => []
  | k + 1, v => Nat.digitChar (v / 16 ^ k % 16) :: hexDigits k v

/-- The letter behind the backslash. -/
def letterOf (c : Char) : Option Char :=
  if c.toNat = 7 then some 'a'
  else if c.toNat = 8 then some 'b'
  else if c.toNat = 9 then some 't'
  else if c.toNat = 10 then some 'n'
  else if c.toNat = 11 then some 'v'
  else if c.toNat = 12 then some 'f'
  else if c.toNat = 13 then some 'r'
  else none

/-- `strconv.appendEscapedRune` -/
def escapedRune (isPrint : Char → Bool) (c : Char) : List Char :=
  if c = '"' ∨ c = '\\' then ['\\', c]
  else if isPrint c then [c]
  else
    match letterOf c with
    | some letter => ['\\', letter]
    | none =>
      if c.toNat < 32 ∨ c.toNat = 127 then '\\' :: 'x' :: hexDigits 2 c.toNat
      else if c.toNat < 65536 then '\\' :: 'u' :: hexDigits 4 c.toNat
      else '\\' :: 'U' :: hexDigits 8 c.toNat

def quotedRunes (isPrint : Char → Bool) (cs : List Char) : List Char :=
  '"' :: (cs.flatMap (escapedRune isPrint) ++ ['"'])

variable {isPrint : Char → Bool} {c : Char}

theorem letterOf_eq {letter : Char} (h : letterOf c = some letter) :
    (c.toNat, letter) ∈ [(7, 'a'), (8, 'b'), (9, 't'), (10, 'n'), (11, 'v'), (12, 'f'), (13, 'r')] := by
  rw [letterOf] at h
  repeat
    split at h
    · rename_i hc
      cases h
      rw [hc]
      decide
  contradiction

end Selebrow.Text
