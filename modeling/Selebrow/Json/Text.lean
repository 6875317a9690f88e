import Selebrow.Json.Same
import Selebrow.Text.Hex
import Selebrow.Text.Utf8

/-!
# The text of a JSON value

`parse` is the scanner of `encoding/json` together with its `unquote`; `render` writes a
value as `json.Marshal` does, with the members of an object in the order of the list.
Neither changes a number's literal.

The fuel of the recursive functions bounds their depth, and `parse` gives them more than a
text can use up.
-/

namespace Selebrow.Json

open Text

/-! ## Reading a string -/

/-- The hexadecimal number of four digits. -/
def getu4 : GoString → Option (Nat × GoString)
  | a :: b :: c :: d :: s => do
    let a ← unhex a
    let b ← unhex b
    let c ← unhex c
    let d ← unhex d
    return (((a.toNat * 16 + b.toNat) * 16 + c.toNat) * 16 + d.toNat, s)
  | _ => none

def isSurrogate (u : Nat) : Bool := 0xD800 ≤ u && u < 0xE000

/-- `utf16.DecodeRune`, if the two are a pair. -/
def surrogatePair (u u' : Nat) : Option Nat :=
  if 0xD800 ≤ u ∧ u < 0xDC00 ∧ 0xDC00 ≤ u' ∧ u' < 0xE000 then
    some ((u - 0xD800) * 0x400 + (u' - 0xDC00) + 0x10000)
  else none

def encodeRune (u : Nat) : GoString := String.utf8EncodeChar (Char.ofNat u)

/-- What stands for an escaped code unit, and what follows it: a pair of surrogates is one
character, and a surrogate alone is replaced. -/
def unescapeUnit (u : Nat) (s : GoString) : GoString × GoString :=
  if isSurrogate u then
    match s with
    | 92 :: 117 :: t =>
      match getu4 t with
      | some (u', t') =>
        match surrogatePair u u' with
        | some c => (encodeRune c, t')
        | none => (replacement, s)
      | none => (replacement, s)
    | _ => (replacement, s)
  else (encodeRune u, s)

/-- The letter behind a backslash. -/
def unescapeByte (e : UInt8) : Option UInt8 :=
  if e = 34 ∨ e = 92 ∨ e = 47 then some e
  else if e = 98 then some 8
  else if e = 102 then some 12
  else if e = 110 then some 10
  else if e = 114 then some 13
  else if e = 116 then some 9
  else none

/-- What stands for the escape behind a backslash, and what follows it. -/
def scanEscape : GoString → Option (GoString × GoString)
  | [] => none
  | e :: s =>
    if e = 117 then (getu4 s).map fun u => unescapeUnit u.1 u.2
    else (unescapeByte e).map fun c => ([c], s)

/-- The character at the front. -/
def scanRune (b : UInt8) (s : GoString) : Option (GoString × GoString) :=
  if b = 92 then scanEscape s
  else if b < 32 then none
  else if b < 0x80 then some ([b], s)
  else
    match runeLength (b :: s) with
    | 0 => some (replacement, s)
    | n + 1 => some (b :: s.take n, s.drop n)

/-- The text up to the closing quote, and what follows that. -/
def scanString : Nat → GoString → Option (GoString × GoString)
  | 0, _ => none
  | _ + 1, [] => none
  | fuel + 1, b :: s =>
    if b = 34 then some ([], s)
    else (scanRune b s).bind fun c => (scanString fuel c.2).map fun r => (c.1 ++ r.1, r.2)

/-! ## Reading a number -/

def isDigit (b : UInt8) : Bool := 48 ≤ b && b ≤ 57

/-- One digit or more. -/
def scanDigits (s : GoString) : Option (GoString × GoString) :=
  if s.takeWhile isDigit = [] then none else some (s.takeWhile isDigit, s.dropWhile isDigit)

def scanInt (s : GoString) : Option (GoString × GoString) :=
  match s with
  | 48 :: s => some ([48], s)
  | s => scanDigits s

def scanFraction (s : GoString) : Option (GoString × GoString) :=
  match s with
  | 46 :: s => (scanDigits s).map fun r => (46 :: r.1, r.2)
  | s => some ([], s)

def scanExponentDigits (s : GoString) : Option (GoString × GoString) :=
  match s with
  | 43 :: s => (scanDigits s).map fun r => (43 :: r.1, r.2)
  | 45 :: s => (scanDigits s).map fun r => (45 :: r.1, r.2)
  | s => scanDigits s

def scanExponent (s : GoString) : Option (GoString × GoString) :=
  match s with
  | 101 :: s => (scanExponentDigits s).map fun r => (101 :: r.1, r.2)
  | 69 :: s => (scanExponentDigits s).map fun r => (69 :: r.1, r.2)
  | s => some ([], s)

def scanUnsigned (s : GoString) : Option (GoString × GoString) := do
  let (int, s) ← scanInt s
  let (fraction, s) ← scanFraction s
  let (exponent, s) ← scanExponent s
  return (int ++ fraction ++ exponent, s)

/-- The literal at the front, and what follows it. -/
def scanNumber (s : GoString) : Option (GoString × GoString) :=
  match s with
  | 45 :: s => (scanUnsigned s).map fun r => (45 :: r.1, r.2)
  | s => scanUnsigned s

/-! ## Reading a value -/

def isSpace (b : UInt8) : Bool := b == 32 || b == 9 || b == 10 || b == 13

def skipSpace (s : GoString) : GoString := s.dropWhile isSpace

/-- The rest of `s` behind the text. -/
def stripText (text s : GoString) : Option GoString := if text <+: s then some (s.drop text.length) else none

mutual

/-- The value at the front, whose arrays and objects nest no deeper than `levels`. -/
def parseValue : Nat → Nat → GoString → Option (Json × GoString)
  | 0, _, _ => none
  | fuel + 1, levels, s =>
    match skipSpace s with
    | [] => none
    | b :: s =>
      if b = 34 then (scanString (s.length + 1) s).map fun r => (.string r.1, r.2)
      else if b = 91 then parseArray fuel levels s
      else if b = 123 then parseObject fuel levels s
      else if b = 116 then (stripText (bytes "rue") s).map fun s => (.bool true, s)
      else if b = 102 then (stripText (bytes "alse") s).map fun s => (.bool false, s)
      else if b = 110 then (stripText (bytes "ull") s).map fun s => (.null, s)
      else (scanNumber (b :: s)).map fun r => (.number r.1, r.2)

def parseArray : Nat → Nat → GoString → Option (Json × GoString)
  | 0, _, _ => none
  | _ + 1, 0, _ => none
  | fuel + 1, levels + 1, s =>
    match skipSpace s with
    | 93 :: s => some (.array [], s)
    | s => do
      let (v, s) ← parseValue fuel levels s
      let (vs, s) ← parseElements fuel levels s
      return (.array (v :: vs), s)

def parseObject : Nat → Nat → GoString → Option (Json × GoString)
  | 0, _, _ => none
  | _ + 1, 0, _ => none
  | fuel + 1, levels + 1, s =>
    match skipSpace s with
    | 125 :: s => some (.object [], s)
    | s => do
      let (m, s) ← parseMember fuel levels s
      let (ms, s) ← parseMembers fuel levels s
      return (.object (m :: ms), s)

/-- The elements behind the first one. -/
def parseElements : Nat → Nat → GoString → Option (List Json × GoString)
  | 0, _, _ => none
  | fuel + 1, levels, s =>
    match skipSpace s with
    | 93 :: s => some ([], s)
    | 44 :: s => do
      let (v, s) ← parseValue fuel levels s
      let (vs, s) ← parseElements fuel levels s
      return (v :: vs, s)
    | _ => none

def parseMember : Nat → Nat → GoString → Option ((GoString × Json) × GoString)
  | 0, _, _ => none
  | fuel + 1, levels, s =>
    match skipSpace s with
    | 34 :: s => do
      let (k, s) ← scanString (s.length + 1) s
      match skipSpace s with
      | 58 :: s =>
        let (v, s) ← parseValue fuel levels s
        return ((k, v), s)
      | _ => none
    | _ => none

/-- The members behind the first one. -/
def parseMembers : Nat → Nat → GoString → Option (List (GoString × Json) × GoString)
  | 0, _, _ => none
  | fuel + 1, levels, s =>
    match skipSpace s with
    | 125 :: s => some ([], s)
    | 44 :: s => do
      let (m, s) ← parseMember fuel levels s
      let (ms, s) ← parseMembers fuel levels s
      return (m :: ms, s)
    | _ => none

end

def maxNestingDepth : Nat := 10000

/-- One value, and white space around it. -/
def parse (text : GoString) : Option Json :=
  match parseValue (2 * text.length + 2) maxNestingDepth text with
  | some (v, rest) => if skipSpace rest = [] then some v else none
  | none => none

/-! ## Writing -/

def escapedByte (b : UInt8) : GoString :=
  if b = 34 ∨ b = 92 then [92, b]
  else if b = 8 then bytes "\\b"
  else if b = 12 then bytes "\\f"
  else if b = 10 then bytes "\\n"
  else if b = 13 then bytes "\\r"
  else if b = 9 then bytes "\\t"
  -- What a browser could take for markup is escaped as well.
  else if b < 32 ∨ b = 60 ∨ b = 62 ∨ b = 38 then
    bytes "\\u00" ++ [hexDigit 97 (b / 16), hexDigit 97 (b % 16)]
  else [b]

def lineSeparator : GoString := [0xE2, 0x80, 0xA8]

def paragraphSeparator : GoString := [0xE2, 0x80, 0xA9]

/-- A character beyond ASCII. -/
def escapedRune (rune : GoString) : GoString :=
  if rune = lineSeparator then bytes "\\u2028"
  else if rune = paragraphSeparator then bytes "\\u2029"
  else rune

def escaped : Nat → GoString → GoString
  | 0, _ => []
  | _ + 1, [] => []
  | fuel + 1, b :: s =>
    if b < 0x80 then escapedByte b ++ escaped fuel s
    else
      match runeLength (b :: s) with
      | 0 => bytes "\\ufffd" ++ escaped fuel s
      | n + 1 => escapedRune (b :: s.take n) ++ escaped fuel (s.drop n)

def quote (s : GoString) : GoString := 34 :: (escaped s.length s ++ [34])

mutual

def render : Json → GoString
  | .null => bytes "null"
  | .bool true => bytes "true"
  | .bool false => bytes "false"
  | .number literal => literal
  | .string s => quote s
  | .array [] => bytes "[]"
  | .array (v :: vs) => 91 :: (render v ++ renderElements vs)
  | .object [] => bytes "\x7b\x7d"
  | .object ((k, v) :: ms) => 123 :: (quote k ++ 58 :: (render v ++ renderMembers ms))

def renderElements : List Json → GoString
  | [] => [93]
  | v :: vs => 44 :: (render v ++ renderElements vs)

def renderMembers : List (GoString × Json) → GoString
  | [] => [125]
  | (k, v) :: ms => 44 :: (quote k ++ 58 :: (render v ++ renderMembers ms))

end

end Selebrow.Json
