import Selebrow.Json
import Selebrow.Text.Quote

/-!
# Scalars of YAML

Plain and double-quoted scalars that are written on one line, as the YAML 1.1 library reads
them in block context.  Everything else is left to the caller.
-/

namespace Selebrow.Yaml

open Text

/-- A character that is not a line break and stands for itself. -/
def isRaw (c : Char) : Bool :=
  c.toNat = 9 || (32 ≤ c.toNat && c.toNat ≤ 126) ||
    (160 ≤ c.toNat && c.toNat ∉ [0x2028, 0x2029, 0xFEFF, 0xFFFE, 0xFFFF])

/-! ## Double-quoted scalars -/

inductive Scan
  | text
  | escape
  /-- Digits of a code point, and how many follow the next one. -/
  | code (left value : Nat)

def escaped (c : Char) : Option Char :=
  match c with
  | '0' => some (Char.ofNat 0)
  | 'a' => some (Char.ofNat 7)
  | 'b' => some (Char.ofNat 8)
  | 't' => some (Char.ofNat 9)
  | 'n' => some (Char.ofNat 10)
  | 'v' => some (Char.ofNat 11)
  | 'f' => some (Char.ofNat 12)
  | 'r' => some (Char.ofNat 13)
  | 'e' => some (Char.ofNat 27)
  | ' ' => some ' '
  | '"' => some '"'
  | '\\' => some '\\'
  | 'N' => some (Char.ofNat 0x85)
  | '_' => some (Char.ofNat 0xA0)
  | 'L' => some (Char.ofNat 0x2028)
  | 'P' => some (Char.ofNat 0x2029)
  | _ => none

/-- The number of digits behind the first one. -/
def codeLength (c : Char) : Option Nat :=
  match c with
  | 'x' => some 1
  | 'u' => some 3
  | 'U' => some 7
  | _ => none

def hexValue (c : Char) : Option Nat :=
  if 48 ≤ c.toNat ∧ c.toNat ≤ 57 then some (c.toNat - 48)
  else if 97 ≤ c.toNat ∧ c.toNat ≤ 102 then some (c.toNat - 87)
  else if 65 ≤ c.toNat ∧ c.toNat ≤ 70 then some (c.toNat - 55)
  else none

def codePoint (v : Nat) : Option Char := if v.isValidChar then some (Char.ofNat v) else none

/-- The text up to the closing quote, which ends the line. -/
def scanQuoted : Scan → List Char → Option (List Char)
  | _, [] => none
  | .text, c :: cs =>
    if c = '"' then (if cs = [] then some [] else none)
    else if c = '\\' then scanQuoted .escape cs
    else if isRaw c then (scanQuoted .text cs).map (c :: ·)
    else none
  | .escape, c :: cs =>
    match escaped c with
    | some c' => (scanQuoted .text cs).map (c' :: ·)
    | none =>
      match codeLength c with
      | some n => scanQuoted (.code n 0) cs
      | none => none
  | .code left v, c :: cs =>
    match hexValue c with
    | none => none
    | some d =>
      match left with
      | 0 =>
        match codePoint (16 * v + d) with
        | none => none
        | some c' => (scanQuoted .text cs).map (c' :: ·)
      | n + 1 => scanQuoted (.code n (16 * v + d)) cs

section

variable {isPrint : Char → Bool} {c : Char} {cs : List Char}

theorem hexValue_digitChar {d : Nat} (h : d < 16) : hexValue (Nat.digitChar d) = some d := by
  have hall : ∀ d < 16, hexValue (Nat.digitChar d) = some d := by decide
  exact hall d h

theorem scanQuoted_hexDigits (k acc v : Nat) (cs : List Char) :
    scanQuoted (.code k acc) (hexDigits (k + 1) v ++ cs) =
      (codePoint (acc * 16 ^ (k + 1) + v % 16 ^ (k + 1))).bind fun c =>
        (scanQuoted .text cs).map (c :: ·) := by
  induction k generalizing acc with
  | zero =>
    rw [hexDigits, hexDigits, List.cons_append, List.nil_append, scanQuoted,
      hexValue_digitChar (Nat.mod_lt _ (by decide))]
    dsimp only
    rw [Nat.pow_zero, Nat.div_one, Nat.mul_comm]
    cases codePoint (acc * 16 + v % 16) <;> rfl
  | succ k ih =>
    rw [hexDigits, List.cons_append, scanQuoted, hexValue_digitChar (Nat.mod_lt _ (by decide))]
    dsimp only
    have hvalue : (16 * acc + v / 16 ^ (k + 1) % 16) * 16 ^ (k + 1) + v % 16 ^ (k + 1) =
        acc * 16 ^ (k + 2) + v % 16 ^ (k + 2) := by
      have hmod : v % 16 ^ (k + 2) = v % 16 ^ (k + 1) + 16 ^ (k + 1) * (v / 16 ^ (k + 1) % 16) :=
        Nat.mod_pow_succ
      have hpow : 16 ^ (k + 2) = 16 ^ (k + 1) * 16 := Nat.pow_succ 16 (k + 1)
      rw [hmod, hpow, Nat.add_mul, ← Nat.mul_assoc acc, Nat.mul_comm (v / _ % 16), Nat.mul_assoc 16,
        Nat.mul_comm 16]
      omega
    rw [ih, hvalue]

theorem codePoint_toNat (c : Char) : codePoint c.toNat = some c := by
  have hvalid : c.toNat.isValidChar := c.valid
  rw [codePoint, if_pos hvalid, Char.ofNat_toNat]

/-- A code point that fits its digits is read back. -/
theorem scanQuoted_code {k : Nat} (h : c.toNat < 16 ^ (k + 1)) (cs : List Char) :
    scanQuoted (.code k 0) (hexDigits (k + 1) c.toNat ++ cs) = (scanQuoted .text cs).map (c :: ·) := by
  rw [scanQuoted_hexDigits, Nat.zero_mul, Nat.zero_add, Nat.mod_eq_of_lt h, codePoint_toNat,
    Option.bind_some]

theorem scanQuoted_escape (c : Char) (cs : List Char) :
    scanQuoted .text ('\\' :: c :: cs) = scanQuoted .escape (c :: cs) := rfl

theorem scanQuoted_letter {letter : Char} (h : letterOf c = some letter) (cs : List Char) :
    scanQuoted .text ('\\' :: letter :: cs) = (scanQuoted .text cs).map (c :: ·) := by
  have hescaped : escaped letter = some c := by
    have hmem := letterOf_eq h
    have hall : ∀ e ∈ [(7, 'a'), (8, 'b'), (9, 't'), (10, 'n'), (11, 'v'), (12, 'f'), (13, 'r')],
        escaped e.2 = some (Char.ofNat e.1) := by decide
    rw [hall _ hmem]
    exact congrArg some (Char.ofNat_toNat c)
  rw [scanQuoted_escape, scanQuoted, hescaped]

/-- What one character is written as is read as that character. -/
theorem scanQuoted_escapedRune (hprint : ∀ c, isPrint c = true → isRaw c = true) (c : Char)
    (cs : List Char) :
    scanQuoted .text (escapedRune isPrint c ++ cs) = (scanQuoted .text cs).map (c :: ·) := by
  rw [escapedRune]
  split
  · rename_i hc
    rcases hc with rfl | rfl
    · rfl
    · rfl
  · rename_i hc
    split
    · rename_i hp
      rw [List.singleton_append, scanQuoted, if_neg (fun h => hc (Or.inl h)),
        if_neg (fun h => hc (Or.inr h)), if_pos (hprint c hp)]
    · split
      · rename_i letter hletter
        exact scanQuoted_letter hletter cs
      · split
        · rename_i hsmall
          exact scanQuoted_code (k := 1) (by omega) cs
        · split
          · rename_i hshort
            exact scanQuoted_code (k := 3) (by omega) cs
          · have hlt : c.toNat < 16 ^ 8 := by
              have hvalid : c.toNat.isValidChar := c.valid
              rw [Nat.isValidChar] at hvalid
              omega
            exact scanQuoted_code (k := 7) hlt cs

/-- Quoted text is read back. -/
theorem scanQuoted_flatMap (hprint : ∀ c, isPrint c = true → isRaw c = true) (cs : List Char) :
    scanQuoted .text (cs.flatMap (escapedRune isPrint) ++ ['"']) = some cs := by
  induction cs with
  | nil => rfl
  | cons c cs ih =>
    rw [List.flatMap_cons, List.append_assoc, scanQuoted_escapedRune hprint, ih]
    rfl

end

/-! ## Plain scalars -/

def isBlank (b : UInt8) : Bool := b = 32 || b = 9

/-- A blank or the end of the line comes next. -/
def ends (next : Option UInt8) : Bool := next.all isBlank

/-- A plain scalar does not go on with this character: a colon before a blank, or the blank
before a comment. -/
def stops (b : UInt8) (next : Option UInt8) : Bool :=
  (b = 58 && ends next) || (isBlank b && next = some 35)

/-- A plain scalar, and the text behind it. -/
def scanPlain : GoString → GoString × GoString
  | [] => ([], [])
  | b :: s => if stops b s.head? then ([], b :: s) else (b :: (scanPlain s).1, (scanPlain s).2)

/-- `,[]{}#&*!|>'"%@` and the backquote -/
def indicators : List UInt8 :=
  [44, 91, 93, 123, 125, 35, 38, 42, 33, 124, 62, 39, 34, 37, 64, 96]

def plainStart : GoString → Bool
  | [] => false
  | b :: s =>
    if b = 45 ∨ b = 63 ∨ b = 58 then !ends s.head? else !isBlank b && !indicators.contains b

/-- Characters that stand for themselves, at most so many of them. -/
def isText (max : Option Nat) (s : GoString) : Bool :=
  match decodeUtf8 s with
  | none => false
  | some cs => cs.all isRaw && max.all (cs.length ≤ ·)

/-- The line is one plain scalar. -/
def isPlain (s : GoString) : Bool :=
  plainStart s && (scanPlain s).2 = [] && !s.getLast?.any isBlank && isText none s

/-- The plain key of a line, and what stands behind its colon. -/
def splitKey (s : GoString) : Option (GoString × GoString) :=
  match (scanPlain s).2 with
  | [] => none
  | b :: rest =>
    if b = 58 ∧ plainStart s ∧ !(scanPlain s).1.getLast?.any isBlank ∧
        isText (some 1024) (scanPlain s).1 then
      some ((scanPlain s).1, rest.dropWhile isBlank)
    else none

/-! ## What a plain scalar is -/

def trueWords : List GoString :=
  ["y", "Y", "yes", "Yes", "YES", "true", "True", "TRUE", "on", "On", "ON"].map bytes

def falseWords : List GoString :=
  ["n", "N", "no", "No", "NO", "false", "False", "FALSE", "off", "Off", "OFF"].map bytes

def nullWords : List GoString := ["", "~", "null", "Null", "NULL"].map bytes

/-- Text that may be a number, a time or a merge mark: it starts with a digit, a sign, a dot
or `<`. -/
def isSpecial (s : GoString) : Bool :=
  match s with
  | [] => false
  | b :: _ => (48 ≤ b && b ≤ 57) || [43, 45, 46, 60].contains b

/-- `special` is what the other plain scalars are. -/
def resolve (special : GoString → Json) (s : GoString) : Json :=
  if s ∈ trueWords then .bool true
  else if s ∈ falseWords then .bool false
  else if s ∈ nullWords then .null
  else if isSpecial s then special s
  else .string s

/-- The key that a plain scalar is, if it can be one. -/
def resolveKey (specialKey : GoString → Option GoString) (s : GoString) : Option GoString :=
  if s ∈ trueWords then some (bytes "true")
  else if s ∈ falseWords then some (bytes "false")
  else if s ∈ nullWords then none
  else if isSpecial s then specialKey s
  else some s

/-- A plain scalar that is a string whatever the library makes of numbers. -/
def isOrdinary (s : GoString) : Bool :=
  s ∉ trueWords && s ∉ falseWords && s ∉ nullWords && !isSpecial s

/-- A scalar on one line. -/
def scalar (special : GoString → Json) (s : GoString) : Option Json :=
  if s.head? = some 34 then
    ((decodeUtf8 s.tail).bind (scanQuoted .text)).map fun cs => .string (utf8 cs)
  else if s = bytes "\x7b\x7d" then some (.object [])
  else if s = bytes "[]" then some (.array [])
  else if isPlain s then some (resolve special s)
  else none

section

variable {s k rest : GoString} {special : GoString → Json} {isPrint : Char → Bool} {c : Char}

theorem resolveKey_ordinary {specialKey : GoString → Option GoString} (h : isOrdinary s = true) :
    resolveKey specialKey s = some s := by
  simp only [isOrdinary, Bool.and_eq_true, decide_eq_true_eq, Bool.not_eq_true'] at h
  obtain ⟨⟨⟨htrue, hfalse⟩, hnull⟩, hspecial⟩ := h
  rw [resolveKey, if_neg htrue, if_neg hfalse, if_neg hnull, hspecial]
  rfl

theorem head?_append_cons (k : GoString) (b : UInt8) (s t : GoString) :
    (k ++ b :: s).head? = (k ++ b :: t).head? := by
  cases k <;> rfl

theorem scanPlain_parts (s : GoString) : (scanPlain s).1 ++ (scanPlain s).2 = s := by
  induction s with
  | nil => rfl
  | cons b s ih =>
    rw [scanPlain]
    split
    · rfl
    · rw [List.cons_append, ih]

theorem scanPlain_append (h : scanPlain (k ++ [58]) = (k, [58])) (rest : GoString) :
    scanPlain (k ++ 58 :: 32 :: rest) = (k, 58 :: 32 :: rest) := by
  induction k with
  | nil => rfl
  | cons b k ih =>
    rw [List.cons_append, scanPlain] at h
    rw [List.cons_append, scanPlain, head?_append_cons k 58 (32 :: rest) []]
    split at h
    · cases h
    · rename_i hstops
      rw [Prod.mk.injEq, List.cons.injEq] at h
      rw [if_neg hstops, ih (Prod.ext h.1.2 h.2)]

theorem plainStart_append (hk : k ≠ []) (b : UInt8) (s t : GoString) :
    plainStart (k ++ b :: s) = plainStart (k ++ b :: t) := by
  cases k with
  | nil => contradiction
  | cons c k => rw [List.cons_append, List.cons_append, plainStart, plainStart, head?_append_cons k b s t]

theorem splitKey_of_plainStart (h : plainStart s = false) : splitKey s = none := by
  rw [splitKey]
  split
  · rfl
  · rw [h, if_neg]
    rintro ⟨_, hstart, _⟩
    contradiction

/-- A key stays one whatever stands behind it. -/
theorem splitKey_append (h : splitKey (k ++ [58]) = some (k, [])) (rest : GoString) :
    splitKey (k ++ 58 :: 32 :: rest) = some (k, rest.dropWhile isBlank) := by
  have hparts := scanPlain_parts (k ++ [58])
  rw [splitKey] at h
  cases hscan : (scanPlain (k ++ [58])).2 with
  | nil =>
    rw [hscan] at h
    contradiction
  | cons b t =>
    rw [hscan] at h hparts
    dsimp only at h
    split at h
    · rename_i hkey
      obtain ⟨rfl, hstart, hlast, htext⟩ := hkey
      rw [Option.some.injEq, Prod.mk.injEq] at h
      rw [h.1] at hlast htext hparts
      have hne : k ≠ [] := by
        rintro rfl
        contradiction
      have ht : t = [] := List.tail_eq_of_cons_eq (List.append_cancel_left hparts)
      have hwhole : scanPlain (k ++ [58]) = (k, [58]) := Prod.ext h.1 (by rw [hscan, ht])
      rw [plainStart_append hne 58 [] (32 :: rest)] at hstart
      rw [splitKey, scanPlain_append hwhole]
      dsimp only
      rw [if_pos ⟨rfl, hstart, hlast, htext⟩]
      rfl
    · contradiction

/-- Quoted text is a string. -/
theorem scalar_quoted (hprint : ∀ c, isPrint c = true → isRaw c = true) (cs : List Char) :
    scalar special (utf8 (quotedRunes isPrint cs)) = some (.string (utf8 cs)) := by
  have hquoted : utf8 (quotedRunes isPrint cs) =
      34 :: utf8 (cs.flatMap (escapedRune isPrint) ++ ['"']) := utf8_cons _ _
  rw [hquoted, scalar, if_pos List.head?_cons, List.tail_cons, decodeUtf8_utf8, Option.bind_some,
    scanQuoted_flatMap hprint]
  rfl

/-- Printable ASCII without colons and blanks is plain. -/
theorem isPlain_ascii (hstart : plainStart s = true)
    (h : ∀ b ∈ s, 32 < b.toNat ∧ b.toNat < 127 ∧ b.toNat ≠ 58) : isPlain s = true := by
  have hblank : ∀ b ∈ s, isBlank b = false := by
    intro b hb
    have hrange := h b hb
    rw [isBlank, Bool.or_eq_false_iff, decide_eq_false_iff_not, decide_eq_false_iff_not]
    constructor
    · rintro rfl
      exact absurd hrange.1 (by decide)
    · rintro rfl
      exact absurd hrange.1 (by decide)
  have hscan : ∀ t : GoString, (∀ b ∈ t, b ∈ s) → scanPlain t = (t, []) := by
    intro t
    induction t with
    | nil => exact fun _ => rfl
    | cons b t ih =>
      intro ht
      have hb := ht b List.mem_cons_self
      have hcolon : (decide (b = 58)) = false := by
        rw [decide_eq_false_iff_not]
        rintro rfl
        exact (h 58 hb).2.2 rfl
      have hstops : stops b t.head? = false := by
        rw [stops, hcolon, hblank b hb]
        rfl
      rw [scanPlain, hstops, ih fun b' hb' => ht b' (List.mem_cons_of_mem b hb')]
      rfl
  have hlast : s.getLast?.any isBlank = false := by
    cases hs : s.getLast? with
    | none => rfl
    | some b => exact hblank b (List.mem_of_getLast? hs)
  have htext : isText none s = true := by
    have hdecode := decodeUtf8_utf8 (s.map fun b => Char.ofNat b.toNat)
    rw [utf8_ascii fun b hb => Nat.lt_trans (h b hb).2.1 (by decide)] at hdecode
    rw [isText, hdecode]
    simp only [Bool.and_eq_true, List.all_eq_true, List.mem_map]
    constructor
    · rintro c ⟨b, hb, rfl⟩
      have hall : ∀ n < 127, 32 < n → isRaw (Char.ofNat n) = true := by decide
      exact hall _ (h b hb).2.1 (h b hb).1
    · rfl
  rw [isPlain, hstart, hscan s (fun b hb => hb), hlast, htext]
  rfl

theorem scalar_of_isPlain (h : isPlain s = true) : (scalar special s).isSome = true := by
  rw [scalar]
  split
  · rename_i hquote
    cases s with
    | nil => contradiction
    | cons b s =>
      obtain rfl : b = 34 := Option.some.inj hquote
      exact absurd h Bool.false_ne_true
  · split
    · rfl
    · split
      · rfl
      · rfl

/-! ## One line -/

theorem isRaw_ne (h : isRaw c = true) : c.toNat ≠ 10 := by
  intro hten
  rw [isRaw, hten] at h
  contradiction

theorem escaped_ne {c' : Char} (h : escaped c = some c') : c.toNat ≠ 10 := by
  intro hten
  have hc : c = '\n' := by rw [← Char.ofNat_toNat c, hten]
  rw [hc] at h
  contradiction

theorem codeLength_ne {n : Nat} (h : codeLength c = some n) : c.toNat ≠ 10 := by
  intro hten
  have hc : c = '\n' := by rw [← Char.ofNat_toNat c, hten]
  rw [hc] at h
  contradiction

theorem hexValue_ne {n : Nat} (h : hexValue c = some n) : c.toNat ≠ 10 := by
  intro hten
  rw [hexValue, hten] at h
  contradiction

/-- A double-quoted scalar that is read has no line break. -/
theorem scanQuoted_lines (cs : List Char) : ∀ {state : Scan} {out : List Char},
    scanQuoted state cs = some out → ∀ c ∈ cs, c.toNat ≠ 10 := by
  induction cs with
  | nil => exact fun _ c hc => absurd hc List.not_mem_nil
  | cons c cs ih =>
    intro state out h c' hc'
    have hrest : ∀ {state : Scan} {out : List Char}, c.toNat ≠ 10 →
        scanQuoted state cs = some out → c'.toNat ≠ 10 := by
      intro state out hc h
      rcases List.mem_cons.mp hc' with rfl | hc'
      · exact hc
      · exact ih h c' hc'
    cases state with
    | text =>
      rw [scanQuoted] at h
      split at h
      · rename_i hquote
        split at h
        · rename_i hnil
          rw [hnil, List.mem_singleton] at hc'
          rw [hc', hquote]
          decide
        · contradiction
      · split at h
        · rename_i hslash
          exact hrest (by rw [hslash]; decide) h
        · split at h
          · rename_i hraw
            obtain ⟨_, hout, _⟩ := Option.map_eq_some_iff.mp h
            exact hrest (isRaw_ne hraw) hout
          · contradiction
    | escape =>
      rw [scanQuoted] at h
      split at h
      · rename_i hescaped
        obtain ⟨_, hout, _⟩ := Option.map_eq_some_iff.mp h
        exact hrest (escaped_ne hescaped) hout
      · split at h
        · rename_i hlength
          exact hrest (codeLength_ne hlength) h
        · contradiction
    | code left v =>
      rw [scanQuoted] at h
      split at h
      · contradiction
      · rename_i hvalue
        split at h
        · split at h
          · contradiction
          · obtain ⟨_, hout, _⟩ := Option.map_eq_some_iff.mp h
            exact hrest (hexValue_ne hvalue) hout
        · exact hrest (hexValue_ne hvalue) h

theorem notMem_of_chars {cs : List Char} (hdecode : decodeUtf8 s = some cs)
    (h : ∀ c ∈ cs, c.toNat ≠ 10) : 10 ∉ s := by
  intro hmem
  rw [← utf8_of_decodeUtf8 hdecode] at hmem
  obtain ⟨c, hc, hten⟩ := mem_utf8 (by decide) hmem
  exact h c hc hten

theorem notMem_of_isText {max : Option Nat} (h : isText max s = true) : 10 ∉ s := by
  rw [isText] at h
  split at h
  · contradiction
  · rename_i cs hcs
    rw [Bool.and_eq_true] at h
    exact notMem_of_chars hcs fun c hc => isRaw_ne (List.all_eq_true.mp h.1 c hc)

/-- What is read as a scalar is one line. -/
theorem notMem_of_scalar {v : Json} (h : scalar special s = some v) : 10 ∉ s := by
  rw [scalar] at h
  split at h
  · rename_i hquote
    obtain ⟨out, hout, _⟩ := Option.map_eq_some_iff.mp h
    obtain ⟨cs, hcs, hscan⟩ := Option.bind_eq_some_iff.mp hout
    have htail := notMem_of_chars hcs (scanQuoted_lines cs hscan)
    cases s with
    | nil => exact List.not_mem_nil
    | cons b s =>
      rw [List.head?_cons, Option.some.injEq] at hquote
      rw [hquote, List.mem_cons]
      rintro (hb | hmem)
      · exact absurd hb (by decide)
      · exact htail hmem
  · split at h
    · rename_i hs
      rw [hs]
      decide
    · split at h
      · rename_i hs
        rw [hs]
        decide
      · split at h
        · rename_i hplain
          rw [isPlain, Bool.and_eq_true] at hplain
          exact notMem_of_isText hplain.2
        · contradiction

theorem notMem_of_splitKey (h : splitKey (k ++ [58]) = some (k, [])) : 10 ∉ k := by
  rw [splitKey] at h
  split at h
  · contradiction
  · split at h
    · rename_i hkey
      have hk := (Prod.mk.inj (Option.some.inj h)).1
      have htext := hkey.2.2.2
      rw [hk] at htext
      exact notMem_of_isText htext
    · contradiction

/-- What is read as a scalar does not start with a blank. -/
theorem dropWhile_of_scalar {v : Json} (h : scalar special s = some v) : s.dropWhile isBlank = s := by
  cases s with
  | nil => rfl
  | cons b s =>
    have hb : ¬ isBlank b = true := by
      intro hb
      have hne : ∀ b' : UInt8, isBlank b' = false → b ≠ b' := by
        rintro b' hb' rfl
        rw [hb] at hb'
        contradiction
      rw [scalar] at h
      split at h
      · rename_i hquote
        exact hne 34 rfl (Option.some.inj hquote)
      · split at h
        · rename_i hbraces
          exact hne 123 rfl (List.cons.inj hbraces).1
        · split at h
          · rename_i hbrackets
            exact hne 91 rfl (List.cons.inj hbrackets).1
          · split at h
            · rename_i hplain
              rw [isPlain, plainStart, hb, if_neg] at hplain
              · contradiction
              · rintro (h | h | h)
                · exact hne 45 rfl h
                · exact hne 63 rfl h
                · exact hne 58 rfl h
            · contradiction
    rw [List.dropWhile_cons, if_neg hb]

end

end Selebrow.Yaml
