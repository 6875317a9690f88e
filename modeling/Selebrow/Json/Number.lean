import Mathlib.Data.Rat.Defs
import Selebrow.Go

/-!
# JSON numbers

What a number literal means, and what becomes of it when `encoding/json` decodes it into
an `interface{}` and encodes it again: it is rounded to the nearest `float64`, and written
with as few digits as lead back to that.
-/

namespace Selebrow.Json

/-! ## Literals -/

/-- The digits scaled by a power of ten. -/
structure Decimal where
  negative : Bool
  digits : Nat
  exponent : Int

def digitsValue (s : GoString) : Nat := s.foldl (fun n b => 10 * n + (b.toNat - 48)) 0

def exponentValue : GoString → Int
  | 45 :: s => -(digitsValue s : Int)
  | 43 :: s => digitsValue s
  | s => digitsValue s

/-- The parts of a literal: sign, whole part, fraction and exponent. -/
def parseNumber (literal : GoString) : Decimal :=
  let negative := literal.head? = some 45
  let unsigned := if negative then literal.tail else literal
  let mantissa := unsigned.takeWhile fun b => b != 101 && b != 69
  let exponent := (unsigned.dropWhile fun b => b != 101 && b != 69).tail
  let whole := mantissa.takeWhile (· != 46)
  let fraction := (mantissa.dropWhile (· != 46)).tail
  { negative := negative, digits := digitsValue (whole ++ fraction),
    exponent := exponentValue exponent - fraction.length }

def Decimal.value (d : Decimal) : ℚ :=
  let magnitude := mkRat (d.digits * Nat.pow 10 d.exponent.toNat) (Nat.pow 10 (-d.exponent).toNat)
  if d.negative then -magnitude else magnitude

def numberValue (literal : GoString) : ℚ := (parseNumber literal).value

/-! ## `float64` -/

/-- `mantissa * 2 ^ exponent` -/
structure Float64 where
  negative : Bool
  mantissa : Nat
  exponent : Int
deriving DecidableEq

/-- `num / den < base ^ k` -/
def ltPow (base num den : Nat) (k : Int) : Bool :=
  num * Nat.pow base (-k).toNat < den * Nat.pow base k.toNat

/-- The exponent `k` with `2 ^ k ≤ num / den < 2 ^ (k + 1)`. -/
def floorLog2 (num den : Nat) : Int :=
  let k : Int := num.log2 - den.log2
  if ltPow 2 num den k then k - 1 else k

/-- The double nearest to `num / den`, the even one of two; none when it is too large. -/
def roundFloat64 (num den : Nat) : Option (Nat × Int) :=
  if num = 0 then some (0, 0)
  else
    let e := max (floorLog2 num den - 52) (-1074)
    let n := num * Nat.pow 2 (-e).toNat
    let d := den * Nat.pow 2 e.toNat
    let q := n / d
    let r := n % d
    let m := if d < 2 * r || (2 * r = d && q % 2 = 1) then q + 1 else q
    let (m, e) := if m = Nat.pow 2 53 then (Nat.pow 2 52, e + 1) else (m, e)
    if 971 < e then none else some (m, e)

/-- `strconv.ParseFloat(s, 64)`; none is `ErrRange`. -/
def parseFloat (literal : GoString) : Option Float64 :=
  let d := parseNumber literal
  (roundFloat64 (d.digits * Nat.pow 10 d.exponent.toNat) (Nat.pow 10 (-d.exponent).toNat)).map fun x =>
    { negative := d.negative, mantissa := x.1, exponent := x.2 }

/-- The exponent `k` with `10 ^ k ≤ num / den < 10 ^ (k + 1)`, near `log10 2` times that
for two. -/
def floorLog10 (num den : Nat) : Int :=
  let k := floorLog2 num den * 30103 / 100000
  if !ltPow 10 num den (k + 1) then k + 1 else if !ltPow 10 num den k then k else k - 1

/-- The `n`-digit decimals next to the double, the nearer one first, that round to it. -/
def candidates (m : Nat) (e : Int) (n : Nat) : List (Nat × Int) :=
  let num := m * Nat.pow 2 e.toNat
  let den := Nat.pow 2 (-e).toNat
  let x := floorLog10 num den - (n - 1 : Int)
  let scaledNum := num * Nat.pow 10 (-x).toNat
  let scaledDen := den * Nat.pow 10 x.toNat
  let q := scaledNum / scaledDen
  let nearer := if 2 * (scaledNum % scaledDen) ≤ scaledDen then [q, q + 1] else [q + 1, q]
  (nearer.filter fun d =>
    roundFloat64 (d * Nat.pow 10 x.toNat) (Nat.pow 10 (-x).toNat) = some (m, e)).map fun d => (d, x)

/-- Seventeen digits are always enough. -/
def shortest (m : Nat) (e : Int) : Nat × Int :=
  ((List.range 17).flatMap fun n => candidates m e (n + 1)).headD (0, 0)

def trimZeros : Nat → Nat × Int → Nat × Int
  | 0, d => d
  | fuel + 1, (d, x) => if d % 10 = 0 then trimZeros fuel (d / 10, x + 1) else (d, x)

def zeros (n : Nat) : GoString := List.replicate n 48

/-- The digits without an exponent: `ddd.ddd`. -/
def formatPlain (digits : GoString) (x : Int) : GoString :=
  if 0 ≤ x then digits ++ zeros x.toNat
  else
    let point := (-x).toNat
    if point < digits.length then
      digits.take (digits.length - point) ++ bytes "." ++ digits.drop (digits.length - point)
    else bytes "0." ++ zeros (point - digits.length) ++ digits

/-- The digits with an exponent: `d.ddde±d`. -/
def formatExponent (digits : GoString) (exp : Int) : GoString :=
  digits.take 1 ++ (if digits.length = 1 then [] else bytes "." ++ digits.drop 1) ++ bytes "e" ++
    bytes (if exp < 0 then "-" else "+") ++ bytes (toString exp.natAbs)

/-- How `encoding/json` writes a `float64`. -/
def formatFloat (f : Float64) : GoString :=
  let magnitude :=
    if f.mantissa = 0 then bytes "0"
    else
      let (d, x) := trimZeros 17 (shortest f.mantissa f.exponent)
      let digits := bytes (toString d)
      let exp := x + digits.length - 1
      if exp < -6 || 21 ≤ exp then formatExponent digits exp else formatPlain digits x
  if f.negative then bytes "-" ++ magnitude else magnitude

/-- A decoded literal is written again. -/
def reencode (literal : GoString) : GoString := ((parseFloat literal).map formatFloat).getD literal

example : reencode (bytes "9007199254740993") = bytes "9007199254740992" := by decide +kernel

end Selebrow.Json
