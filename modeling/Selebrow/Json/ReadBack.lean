import Selebrow.Json.Text

/-!
# Reading what was written

`parse` gives back what `render` wrote, with each byte that is not valid UTF-8 replaced.  Two
things are asked for: the literals are numbers, and the value nests no deeper than the parser
follows.
-/

namespace Selebrow.Json

open Text

mutual

/-- The value as its text shows it. -/
def shown : Json → Json
  | .null => .null
  | .bool b => .bool b
  | .number literal => .number literal
  | .string s => .string (toValidUTF8 s)
  | .array vs => .array (shownElements vs)
  | .object ms => .object (shownMembers ms)

def shownElements : List Json → List Json
  | [] => []
  | v :: vs => shown v :: shownElements vs

def shownMembers : List (GoString × Json) → List (GoString × Json)
  | [] => []
  | (k, v) :: ms => (toValidUTF8 k, shown v) :: shownMembers ms

end

/-! ## Strings -/

section

variable {b : UInt8} {s t : GoString} {n fuel : Nat} {low high : UInt8}

theorem follows_take (h : follows n low high s = true) (t : GoString) :
    follows n low high (s.take n ++ t) = true := by
  induction n generalizing s low high with
  | zero => rfl
  | succ n ih =>
    cases s with
    | nil => contradiction
    | cons b s =>
      rw [follows, Bool.and_eq_true] at h
      rw [List.take_succ_cons, List.cons_append, follows, h.1, ih h.2]
      rfl

/-- A character is told from its own bytes. -/
theorem runeLength_take (h : runeLength (b :: s) = n + 1) (t : GoString) :
    runeLength (b :: (s.take n ++ t)) = n + 1 := by
  rw [runeLength] at h ⊢
  split at h
  · rename_i hb
    rw [if_pos hb]
    exact h
  · rename_i hb
    rw [if_neg hb]
    split at h
    · contradiction
    · rename_i k low high hlead
      split at h
      · rename_i hfollows
        have hk : k = n := Nat.succ.inj h
        subst hk
        show (if follows k low high (s.take k ++ t) then k + 1 else 0) = k + 1
        rw [if_pos (follows_take hfollows t)]
      · contradiction

theorem encodeRune_ascii (h : b < 0x80) : encodeRune b.toNat = [b] := by
  have hall : ∀ n < 128, encodeRune n = [UInt8.ofNat n] := by decide
  rw [hall _ (UInt8.lt_iff_toNat_lt.mp h), UInt8.ofNat_toNat]

/-- A character in front of the rest. -/
theorem scanString_cons {c : GoString} (hb : b ≠ 34) (hc : scanRune b s = some (c, t)) :
    scanString (fuel + 1) (b :: s) = (scanString fuel t).map fun r => (c ++ r.1, r.2) := by
  rw [scanString, if_neg hb, hc, Option.bind_some]

/-- An escaped code unit that is no surrogate. -/
theorem scanRune_unit {u : Nat} (h : isSurrogate u = false) (hu : getu4 s = some (u, t)) :
    scanRune 92 (117 :: s) = some (encodeRune u, t) := by
  have hunit : unescapeUnit u t = (encodeRune u, t) := by
    unfold unescapeUnit
    rw [if_neg (by rw [h]; exact Bool.false_ne_true)]
  rw [scanRune, if_pos rfl, scanEscape, if_pos rfl, hu, Option.map_some, hunit]

theorem scanRune_letter {e c : UInt8} (he : e ≠ 117) (hc : unescapeByte e = some c) :
    scanRune 92 (e :: t) = some ([c], t) := by
  rw [scanRune, if_pos rfl, scanEscape, if_neg he, hc, Option.map_some]

theorem halves_toNat (b : UInt8) : (b / 16).toNat * 16 + (b % 16).toNat = b.toNat := by
  rw [UInt8.toNat_div, UInt8.toNat_mod]
  show b.toNat / 16 * 16 + b.toNat % 16 = b.toNat
  omega

theorem getu4_byte (b : UInt8) (t : GoString) :
    getu4 (48 :: 48 :: hexDigit 97 (b / 16) :: hexDigit 97 (b % 16) :: t) = some (b.toNat, t) := by
  rw [getu4, unhex_lower (high_lt b), unhex_lower (low_lt b)]
  show some (((0 * 16 + 0) * 16 + (b / 16).toNat) * 16 + (b % 16).toNat, t) = _
  rw [show ((0 * 16 + 0) * 16 + (b / 16).toNat) * 16 + (b % 16).toNat = b.toNat by
    rw [← halves_toNat b]; omega]

theorem scanString_escapedByte (h : b < 0x80) :
    scanString (fuel + 1) (escapedByte b ++ t) =
      (scanString fuel t).map fun r => ([b] ++ r.1, r.2) := by
  rw [escapedByte]
  split
  · rename_i hb
    apply scanString_cons (by decide)
    apply scanRune_letter
    · rcases hb with rfl | rfl <;> decide
    · rw [unescapeByte, if_pos (hb.imp_right .inl)]
  rename_i hquote
  split
  · rename_i hb
    rw [hb]
    exact scanString_cons (by decide) (scanRune_letter (by decide) (by decide))
  split
  · rename_i hb
    rw [hb]
    exact scanString_cons (by decide) (scanRune_letter (by decide) (by decide))
  split
  · rename_i hb
    rw [hb]
    exact scanString_cons (by decide) (scanRune_letter (by decide) (by decide))
  split
  · rename_i hb
    rw [hb]
    exact scanString_cons (by decide) (scanRune_letter (by decide) (by decide))
  split
  · rename_i hb
    rw [hb]
    exact scanString_cons (by decide) (scanRune_letter (by decide) (by decide))
  split
  · have hsmall : b.toNat < 128 := UInt8.lt_iff_toNat_lt.mp h
    have hlow : ¬ 0xD800 ≤ b.toNat := by omega
    have hunit : isSurrogate b.toNat = false := by
      rw [isSurrogate, decide_eq_false hlow]
      rfl
    rw [← encodeRune_ascii h]
    exact scanString_cons (by decide) (scanRune_unit hunit (getu4_byte b t))
  · rename_i hplain
    have hcontrol : ¬ b < 32 := fun hb => hplain (.inl hb)
    apply scanString_cons (fun hb => hquote (.inl hb))
    rw [scanRune, if_neg (fun hb => hquote (.inr hb)), if_neg hcontrol, if_pos h]
    rfl

/-- A character beyond ASCII, given with its length. -/
theorem scanString_rune (h : ¬ b < 0x80) (hn : runeLength (b :: s) = n + 1) :
    scanString (fuel + 1) (escapedRune (b :: s.take n) ++ t) =
      (scanString fuel t).map fun r => ((b :: s.take n) ++ r.1, r.2) := by
  rw [escapedRune]
  split
  · rename_i hrune
    have hencode : encodeRune 0x2028 = b :: s.take n := by
      rw [hrune]
      decide
    rw [← hencode]
    exact scanString_cons (by decide) (scanRune_unit (by decide) rfl)
  split
  · rename_i hrune
    have hencode : encodeRune 0x2029 = b :: s.take n := by
      rw [hrune]
      decide
    rw [← hencode]
    exact scanString_cons (by decide) (scanRune_unit (by decide) rfl)
  · have hlen : (s.take n).length = n := by
      have := runeLength_le hn
      rw [List.length_take]
      omega
    have hb : ∀ c : UInt8, c < 0x80 → b ≠ c := by
      intro c hc heq
      rw [heq] at h
      exact h hc
    have hcontrol : ¬ b < 32 := by
      intro hlt
      apply h
      rw [UInt8.lt_iff_toNat_lt] at hlt ⊢
      exact Nat.lt_trans hlt (by decide)
    have hdrop : (s.take n ++ t).drop n = t := by
      rw [List.drop_append, hlen, Nat.sub_self, List.drop_of_length_le (Nat.le_of_eq hlen)]
      rfl
    have htake : (s.take n ++ t).take n = s.take n := by
      rw [List.take_append, hlen, Nat.sub_self, List.take_of_length_le (Nat.le_of_eq hlen)]
      exact List.append_nil _
    have hrune : scanRune b (s.take n ++ t) = some (b :: s.take n, t) := by
      rw [scanRune, if_neg (hb 92 (by decide)), if_neg hcontrol, if_neg h, runeLength_take hn]
      dsimp only
      rw [hdrop, htake]
    exact scanString_cons (hb 34 (by decide)) hrune

/-- A quoted text is read up to its closing quote. -/
theorem scanString_escaped (s : GoString) {k fuel : Nat} (hk : s.length ≤ k)
    (hfuel : (escaped k s).length < fuel) (rest : GoString) :
    scanString fuel (escaped k s ++ 34 :: rest) = some (coerce k s, rest) := by
  induction k generalizing s fuel with
  | zero =>
    obtain ⟨fuel, rfl⟩ : ∃ f, fuel = f + 1 := ⟨fuel - 1, by omega⟩
    rfl
  | succ k ih =>
    obtain ⟨fuel, rfl⟩ : ∃ f, fuel = f + 1 := ⟨fuel - 1, by omega⟩
    cases s with
    | nil => rfl
    | cons b s =>
      rw [escaped] at hfuel ⊢
      rw [coerce]
      have hs : s.length ≤ k := Nat.le_of_succ_le_succ hk
      by_cases hb : b < 0x80
      · have hone : runeLength (b :: s) = 0 + 1 := by
          rw [runeLength, if_pos hb]
        rw [if_pos hb] at hfuel ⊢
        have hshort : (escaped k s).length < fuel := by
          have hne : 0 < (escapedByte b).length := by
            unfold escapedByte
            repeat' split
            all_goals exact Nat.succ_pos _
          rw [List.length_append] at hfuel
          omega
        rw [List.append_assoc, scanString_escapedByte hb, ih s hs hshort, hone]
        rfl
      · rw [if_neg hb] at hfuel ⊢
        cases hn : runeLength (b :: s) with
        | zero =>
          rw [hn] at hfuel
          have hshort : (escaped k s).length < fuel := by
            have hlen : (bytes "\\ufffd").length = 6 := rfl
            dsimp only at hfuel
            rw [List.length_append, hlen] at hfuel
            omega
          dsimp only
          rw [List.append_assoc]
          have hrune : scanRune 92 (bytes "ufffd" ++ (escaped k s ++ 34 :: rest)) =
              some (replacement, escaped k s ++ 34 :: rest) :=
            scanRune_unit (u := 0xFFFD) (by decide) rfl
          refine (scanString_cons (by decide) hrune).trans ?_
          rw [ih s hs hshort]
          rfl
        | succ n =>
          rw [hn] at hfuel
          have hdrop : (s.drop n).length ≤ k := by
            rw [List.length_drop]
            omega
          have hshort : (escaped k (s.drop n)).length < fuel := by
            have hne : 0 < (escapedRune (b :: s.take n)).length := by
              unfold escapedRune
              repeat' split
              all_goals exact Nat.succ_pos _
            dsimp only at hfuel
            rw [List.length_append] at hfuel
            omega
          dsimp only
          rw [List.append_assoc, scanString_rune hb hn, ih (s.drop n) hdrop hshort]
          rfl

theorem scanString_quote (s : GoString) (rest : GoString) :
    scanString ((escaped s.length s ++ 34 :: rest).length + 1) (escaped s.length s ++ 34 :: rest) =
      some (toValidUTF8 s, rest) := by
  apply scanString_escaped s (Nat.le_refl _)
  rw [List.length_append]
  omega

end

/-! ## Numbers -/

/-- What follows does not go on with a number. -/
def Stops (s : GoString) : Prop :=
  ∀ b ∈ s.head?, isDigit b = false ∧ b ≠ 46 ∧ b ≠ 101 ∧ b ≠ 69

/-- A scanner that stops where its input stops also stops in front of this text. -/
def StopsWith (scan : GoString → Option (GoString × GoString)) : Prop :=
  ∀ s l r rest, scan s = some (l, r) → Stops rest → scan (s ++ rest) = some (l, r ++ rest)

section

variable {s t l r rest : GoString}

theorem takeWhile_digits (h : Stops rest) (s : GoString) :
    (s ++ rest).takeWhile isDigit = s.takeWhile isDigit ∧
      (s ++ rest).dropWhile isDigit = s.dropWhile isDigit ++ rest := by
  induction s with
  | nil =>
    cases rest with
    | nil => exact ⟨rfl, rfl⟩
    | cons b rest =>
      have hb := (h b rfl).1
      rw [List.nil_append, List.takeWhile_cons, List.dropWhile_cons, hb]
      exact ⟨rfl, rfl⟩
  | cons b s ih =>
    rw [List.cons_append, List.takeWhile_cons, List.takeWhile_cons, List.dropWhile_cons,
      List.dropWhile_cons]
    cases isDigit b with
    | true => exact ⟨congrArg (b :: ·) ih.1, ih.2⟩
    | false => exact ⟨rfl, rfl⟩

theorem scanDigits_stops : StopsWith scanDigits := by
  intro s l r rest h hrest
  obtain ⟨htake, hdrop⟩ := takeWhile_digits hrest s
  rw [scanDigits] at h ⊢
  rw [htake, hdrop]
  split at h
  · contradiction
  · rename_i hne
    rw [if_neg hne]
    cases h
    rfl

theorem map_stops {scan : GoString → Option (GoString × GoString)} (hscan : StopsWith scan) {b : UInt8}
    (h : (scan s).map (fun p => (b :: p.1, p.2)) = some (l, r)) (hrest : Stops rest) :
    (scan (s ++ rest)).map (fun p => (b :: p.1, p.2)) = some (l, r ++ rest) := by
  obtain ⟨⟨l', r'⟩, hp, heq⟩ := Option.map_eq_some_iff.mp h
  obtain ⟨rfl, rfl⟩ := Prod.mk.inj heq
  rw [hscan _ _ _ _ hp hrest]
  rfl

theorem scanInt_stops : StopsWith scanInt := by
  intro s l r rest h hrest
  unfold scanInt at h
  split at h
  · cases h
    rfl
  · rename_i hzero
    cases s with
    | nil => contradiction
    | cons b s =>
      have hb : b ≠ 48 := by
        intro hb
        exact hzero s (by rw [hb])
      have hint : scanInt (b :: s ++ rest) = scanDigits (b :: s ++ rest) := by
        unfold scanInt
        split
        · rename_i heq
          exact absurd (List.cons.inj heq).1 hb
        · rfl
      rw [hint]
      exact scanDigits_stops _ _ _ _ h hrest

theorem scanFraction_stops : StopsWith scanFraction := by
  intro s l r rest h hrest
  unfold scanFraction at h
  split at h
  · exact map_stops scanDigits_stops h hrest
  · rename_i hdot
    cases h
    unfold scanFraction
    split
    · rename_i t heq
      exfalso
      cases s with
      | nil => exact (hrest 46 (by rw [show rest = 46 :: t from heq]; rfl)).2.1 rfl
      | cons b s => exact hdot s (by rw [(List.cons.inj heq).1])
    · rfl

theorem scanExponentDigits_stops : StopsWith scanExponentDigits := by
  intro s l r rest h hrest
  unfold scanExponentDigits at h
  split at h
  · exact map_stops scanDigits_stops h hrest
  · exact map_stops scanDigits_stops h hrest
  · rename_i hplus hminus
    cases s with
    | nil => contradiction
    | cons b s =>
      have hdigits : scanExponentDigits (b :: s ++ rest) = scanDigits (b :: s ++ rest) := by
        unfold scanExponentDigits
        split
        · rename_i heq
          exact absurd (by rw [(List.cons.inj heq).1]) (hplus s)
        · rename_i heq
          exact absurd (by rw [(List.cons.inj heq).1]) (hminus s)
        · rfl
      rw [hdigits]
      exact scanDigits_stops _ _ _ _ h hrest

theorem scanExponent_stops : StopsWith scanExponent := by
  intro s l r rest h hrest
  unfold scanExponent at h
  split at h
  · exact map_stops scanExponentDigits_stops h hrest
  · exact map_stops scanExponentDigits_stops h hrest
  · rename_i hsmall hlarge
    cases h
    unfold scanExponent
    split
    · rename_i t heq
      exfalso
      cases s with
      | nil => exact (hrest 101 (by rw [show rest = 101 :: t from heq]; rfl)).2.2.1 rfl
      | cons b s => exact hsmall s (by rw [(List.cons.inj heq).1])
    · rename_i t heq
      exfalso
      cases s with
      | nil => exact (hrest 69 (by rw [show rest = 69 :: t from heq]; rfl)).2.2.2 rfl
      | cons b s => exact hlarge s (by rw [(List.cons.inj heq).1])
    · rfl

theorem scanUnsigned_stops : StopsWith scanUnsigned := by
  intro s l r rest h hrest
  rw [scanUnsigned] at h ⊢
  cases hint : scanInt s with
  | none =>
    rw [hint] at h
    contradiction
  | some int =>
    rw [hint] at h
    rw [scanInt_stops _ _ _ _ hint hrest]
    cases hfraction : scanFraction int.2 with
    | none =>
      simp only [Option.bind_eq_bind, Option.bind_some, hfraction, Option.bind_none] at h
      contradiction
    | some fraction =>
      cases hexponent : scanExponent fraction.2 with
      | none =>
        simp only [Option.bind_eq_bind, Option.bind_some, hfraction, hexponent, Option.bind_none] at h
        contradiction
      | some exponent =>
        simp only [Option.bind_eq_bind, Option.bind_some, hfraction, hexponent] at h
        cases h
        simp only [Option.bind_eq_bind, Option.bind_some, scanFraction_stops _ _ _ _ hfraction hrest,
          scanExponent_stops _ _ _ _ hexponent hrest]
        rfl

/-- The text is one number. -/
def IsNumber (literal : GoString) : Prop := scanNumber literal = some (literal, [])

instance (literal : GoString) : Decidable (IsNumber literal) :=
  inferInstanceAs (Decidable (scanNumber literal = some (literal, [])))

theorem scanNumber_stops : StopsWith scanNumber := by
  intro s l r rest h hrest
  unfold scanNumber at h
  split at h
  · exact map_stops scanUnsigned_stops h hrest
  · rename_i hminus
    cases s with
    | nil => contradiction
    | cons b s =>
      have hunsigned : scanNumber (b :: s ++ rest) = scanUnsigned (b :: s ++ rest) := by
        unfold scanNumber
        split
        · rename_i heq
          exact absurd (by rw [(List.cons.inj heq).1]) (hminus s)
        · rfl
      rw [hunsigned]
      exact scanUnsigned_stops _ _ _ _ h hrest

theorem scanNumber_append (h : IsNumber l) (hrest : Stops rest) :
    scanNumber (l ++ rest) = some (l, rest) :=
  scanNumber_stops _ _ _ _ h hrest

theorem digit_of_scanDigits (h : scanDigits s = some (l, r)) : ∃ b t, s = b :: t ∧ isDigit b = true := by
  rw [scanDigits] at h
  split at h
  · contradiction
  · rename_i hne
    cases s with
    | nil => exact absurd rfl hne
    | cons b s =>
      cases hb : isDigit b with
      | true => exact ⟨b, s, rfl, hb⟩
      | false =>
        rw [List.takeWhile_cons, hb] at hne
        exact absurd rfl hne

theorem digit_of_scanInt (h : scanInt s = some (l, r)) : ∃ b t, s = b :: t ∧ isDigit b = true := by
  unfold scanInt at h
  split at h
  · exact ⟨48, _, rfl, rfl⟩
  · exact digit_of_scanDigits h

/-- A number starts with its sign or a digit. -/
theorem head_of_isNumber (h : IsNumber l) : ∃ b t, l = b :: t ∧ (b = 45 ∨ isDigit b = true) := by
  unfold IsNumber scanNumber at h
  split at h
  · exact ⟨45, _, rfl, .inl rfl⟩
  · rw [scanUnsigned] at h
    obtain ⟨⟨int, t⟩, hint, _⟩ := Option.bind_eq_some_iff.mp h
    obtain ⟨b, t', heq, hb⟩ := digit_of_scanInt hint
    exact ⟨b, t', heq, .inr hb⟩

end

/-! ## Values -/

/-- The literals in it are numbers. -/
inductive Numeric : Json → Prop
  | null : Numeric .null
  | bool (b : Bool) : Numeric (.bool b)
  | number (literal : GoString) (h : IsNumber literal) : Numeric (.number literal)
  | string (s : GoString) : Numeric (.string s)
  | array (vs : List Json) (h : ∀ v ∈ vs, Numeric v) : Numeric (.array vs)
  | object (ms : List (GoString × Json)) (h : ∀ e ∈ ms, Numeric e.2) : Numeric (.object ms)

/-- Its text is read, whatever follows. -/
def ReadsBack (v : Json) : Prop :=
  ∀ fuel levels rest, v.depth ≤ levels → 2 * (render v).length ≤ fuel → Stops rest →
    parseValue fuel levels (render v ++ rest) = some (shown v, rest)

section

variable {v : Json} {vs : List Json} {ms : List (GoString × Json)} {fuel levels : Nat}
  {b : UInt8} {k s rest : GoString}

theorem skipSpace_cons (h : isSpace b = false) (s : GoString) : skipSpace (b :: s) = b :: s := by
  rw [skipSpace, List.dropWhile_cons, h]
  rfl

theorem stops_nil : Stops [] := by
  intro b hb
  contradiction

theorem stops_cons (h : isDigit b = false ∧ b ≠ 46 ∧ b ≠ 101 ∧ b ≠ 69) (s : GoString) : Stops (b :: s) := by
  intro c hc
  cases hc
  exact h

theorem stops_elements (vs : List Json) (rest : GoString) : Stops (renderElements vs ++ rest) := by
  cases vs with
  | nil => exact stops_cons (by decide) rest
  | cons v vs => exact stops_cons (by decide) _

theorem stops_members (ms : List (GoString × Json)) (rest : GoString) :
    Stops (renderMembers ms ++ rest) := by
  cases ms with
  | nil => exact stops_cons (by decide) rest
  | cons e ms => exact stops_cons (by decide) _

theorem digit_ge (h : b = 45 ∨ isDigit b = true) : 45 ≤ b.toNat ∧ b.toNat ≤ 57 := by
  rcases h with rfl | h
  · exact ⟨by decide, by decide⟩
  · rw [isDigit, Bool.and_eq_true, decide_eq_true_eq, decide_eq_true_eq, UInt8.le_iff_toNat_le,
      UInt8.le_iff_toNat_le] at h
    have h48 : (48 : UInt8).toNat = 48 := rfl
    have h57 : (57 : UInt8).toNat = 57 := rfl
    omega

theorem number_byte_ne {c : UInt8} (h : b = 45 ∨ isDigit b = true)
    (hc : c.toNat < 45 ∨ 57 < c.toNat) : b ≠ c := by
  intro heq
  have hb := digit_ge h
  rw [heq] at hb
  omega

theorem isSpace_number (h : b = 45 ∨ isDigit b = true) : isSpace b = false := by
  have hne : ∀ c : UInt8, c.toNat < 45 → (b == c) = false := by
    intro c hc
    exact beq_false_of_ne (number_byte_ne h (.inl hc))
  rw [isSpace, hne 32 (by decide), hne 9 (by decide), hne 10 (by decide), hne 13 (by decide)]
  rfl

/-- A value's text starts neither with white space nor with a closing bracket. -/
theorem render_head (h : Numeric v) :
    ∃ b t, render v = b :: t ∧ isSpace b = false ∧ b ≠ 93 := by
  cases h with
  | null => exact ⟨110, _, rfl, rfl, by decide⟩
  | bool b =>
    cases b with
    | true => exact ⟨116, _, rfl, rfl, by decide⟩
    | false => exact ⟨102, _, rfl, rfl, by decide⟩
  | number literal h =>
    obtain ⟨b, t, rfl, hb⟩ := head_of_isNumber h
    exact ⟨b, t, rfl, isSpace_number hb, number_byte_ne hb (.inr (by decide))⟩
  | string s => exact ⟨34, _, rfl, rfl, by decide⟩
  | array vs _ =>
    cases vs with
    | nil => exact ⟨91, _, rfl, rfl, by decide⟩
    | cons v vs => exact ⟨91, _, rfl, rfl, by decide⟩
  | object ms _ =>
    cases ms with
    | nil => exact ⟨123, _, rfl, rfl, by decide⟩
    | cons e ms => exact ⟨123, _, rfl, rfl, by decide⟩

theorem quote_append (k rest : GoString) :
    quote k ++ rest = 34 :: (escaped k.length k ++ 34 :: rest) := by
  rw [quote, List.cons_append, List.append_assoc]
  rfl

theorem parseElements_render (hvs : ∀ v ∈ vs, ReadsBack v) (hdepth : depthElements vs ≤ levels)
    (hfuel : 2 * (renderElements vs).length ≤ fuel) (rest : GoString) :
    parseElements fuel levels (renderElements vs ++ rest) = some (shownElements vs, rest) := by
  induction vs generalizing fuel with
  | nil =>
    obtain ⟨fuel, rfl⟩ : ∃ f, fuel = f + 1 := ⟨fuel - 1, by
      rw [renderElements, List.length_singleton] at hfuel
      omega⟩
    rw [renderElements, List.singleton_append, parseElements, skipSpace_cons rfl]
    rfl
  | cons v vs ih =>
    rw [renderElements, List.length_cons, List.length_append] at hfuel
    rw [depthElements] at hdepth
    obtain ⟨fuel, rfl⟩ : ∃ f, fuel = f + 1 := ⟨fuel - 1, by omega⟩
    have hv := hvs v List.mem_cons_self fuel levels (renderElements vs ++ rest) (by omega) (by omega)
      (stops_elements vs rest)
    have hlength : 2 * (renderElements vs).length ≤ fuel := by omega
    have hrest := ih (fun u hu => hvs u (List.mem_cons_of_mem v hu)) (by omega) hlength
    rw [renderElements, List.cons_append, List.append_assoc, parseElements, skipSpace_cons rfl]
    simp only [hv, hrest, Option.bind_eq_bind, Option.bind_some]
    rfl

theorem parseMember_render (hv : ReadsBack v) (hdepth : v.depth ≤ levels)
    (hfuel : 2 * (render v).length < fuel) (hrest : Stops rest) (k : GoString) :
    parseMember fuel levels (quote k ++ 58 :: (render v ++ rest)) =
      some ((toValidUTF8 k, shown v), rest) := by
  obtain ⟨fuel, rfl⟩ : ∃ f, fuel = f + 1 := ⟨fuel - 1, by omega⟩
  have hvalue := hv fuel levels rest hdepth (by omega) hrest
  rw [quote_append, parseMember, skipSpace_cons rfl]
  simp only [scanString_quote, Option.bind_eq_bind, Option.bind_some]
  rw [skipSpace_cons rfl]
  simp only [hvalue, Option.bind_some]
  rfl

theorem parseMembers_render (hms : ∀ e ∈ ms, ReadsBack e.2) (hdepth : depthMembers ms ≤ levels)
    (hfuel : 2 * (renderMembers ms).length ≤ fuel) (rest : GoString) :
    parseMembers fuel levels (renderMembers ms ++ rest) = some (shownMembers ms, rest) := by
  induction ms generalizing fuel with
  | nil =>
    obtain ⟨fuel, rfl⟩ : ∃ f, fuel = f + 1 := ⟨fuel - 1, by
      rw [renderMembers, List.length_singleton] at hfuel
      omega⟩
    rw [renderMembers, List.singleton_append, parseMembers, skipSpace_cons rfl]
    rfl
  | cons e ms ih =>
    obtain ⟨k, v⟩ := e
    rw [renderMembers, List.length_cons, List.length_append, List.length_cons,
      List.length_append] at hfuel
    rw [depthMembers] at hdepth
    obtain ⟨fuel, rfl⟩ : ∃ f, fuel = f + 1 := ⟨fuel - 1, by omega⟩
    have hv : ReadsBack v := hms (k, v) List.mem_cons_self
    have hlevels : v.depth ≤ levels := by omega
    have hlength : 2 * (render v).length < fuel := by omega
    have hlength' : 2 * (renderMembers ms).length ≤ fuel := by omega
    have hmember := parseMember_render hv hlevels hlength (stops_members ms rest) k
    have hrest := ih (fun u hu => hms u (List.mem_cons_of_mem _ hu)) (by omega) hlength'
    rw [renderMembers, List.cons_append, List.append_assoc, List.cons_append, List.append_assoc,
      parseMembers, skipSpace_cons rfl]
    simp only [hmember, hrest, Option.bind_eq_bind, Option.bind_some]
    rfl

theorem stripText_append (text rest : GoString) : stripText text (text ++ rest) = some rest := by
  rw [stripText, if_pos (List.prefix_append text rest), List.drop_left]

theorem readsBack (h : Numeric v) : ReadsBack v := by
  induction h with
  | null =>
    intro fuel levels rest _ hfuel _
    obtain ⟨fuel, rfl⟩ : ∃ f, fuel = f + 1 := ⟨fuel - 1, by
      have : (render .null).length = 4 := rfl
      omega⟩
    have hstrip := stripText_append (bytes "ull") rest
    rw [show render .null ++ rest = 110 :: (bytes "ull" ++ rest) from rfl, parseValue,
      skipSpace_cons rfl]
    dsimp only
    rw [if_neg (by decide), if_neg (by decide), if_neg (by decide), if_neg (by decide),
      if_neg (by decide), if_pos rfl, hstrip]
    rfl
  | bool b =>
    intro fuel levels rest _ hfuel _
    cases b with
    | true =>
      obtain ⟨fuel, rfl⟩ : ∃ f, fuel = f + 1 := ⟨fuel - 1, by
        have : (render (.bool true)).length = 4 := rfl
        omega⟩
      have hstrip := stripText_append (bytes "rue") rest
      rw [show render (.bool true) ++ rest = 116 :: (bytes "rue" ++ rest) from rfl, parseValue,
        skipSpace_cons rfl]
      dsimp only
      rw [if_neg (by decide), if_neg (by decide), if_neg (by decide), if_pos rfl, hstrip]
      rfl
    | false =>
      obtain ⟨fuel, rfl⟩ : ∃ f, fuel = f + 1 := ⟨fuel - 1, by
        have : (render (.bool false)).length = 5 := rfl
        omega⟩
      have hstrip := stripText_append (bytes "alse") rest
      rw [show render (.bool false) ++ rest = 102 :: (bytes "alse" ++ rest) from rfl, parseValue,
        skipSpace_cons rfl]
      dsimp only
      rw [if_neg (by decide), if_neg (by decide), if_neg (by decide), if_neg (by decide),
        if_pos rfl, hstrip]
      rfl
  | number literal hnumber =>
    intro fuel levels rest _ hfuel hrest
    obtain ⟨b, t, rfl, hb⟩ := head_of_isNumber hnumber
    rw [render, List.length_cons] at hfuel
    obtain ⟨fuel, rfl⟩ : ∃ f, fuel = f + 1 := ⟨fuel - 1, by omega⟩
    have hscan := scanNumber_append hnumber hrest
    have hne : ∀ c : UInt8, c.toNat < 45 ∨ 57 < c.toNat → b ≠ c := fun c => number_byte_ne hb
    rw [render, List.cons_append, parseValue, skipSpace_cons (isSpace_number hb)]
    dsimp only
    rw [if_neg (hne _ (by decide)), if_neg (hne _ (by decide)), if_neg (hne _ (by decide)),
      if_neg (hne _ (by decide)), if_neg (hne _ (by decide)), if_neg (hne _ (by decide)),
      ← List.cons_append, hscan]
    rfl
  | string s =>
    intro fuel levels rest _ hfuel _
    rw [render, quote, List.length_cons] at hfuel
    obtain ⟨fuel, rfl⟩ : ∃ f, fuel = f + 1 := ⟨fuel - 1, by omega⟩
    rw [render, quote_append, parseValue, skipSpace_cons rfl]
    dsimp only
    rw [if_pos rfl, scanString_quote]
    rfl
  | array vs hvs ih =>
    intro fuel levels rest hdepth hfuel _
    rw [depth] at hdepth
    obtain ⟨levels, rfl⟩ : ∃ l, levels = l + 1 := ⟨levels - 1, by omega⟩
    cases vs with
    | nil =>
      obtain ⟨fuel, rfl⟩ : ∃ f, fuel = f + 2 := ⟨fuel - 2, by
        have : (render (.array [])).length = 2 := rfl
        omega⟩
      rw [show render (.array []) ++ rest = 91 :: 93 :: rest from rfl, parseValue, skipSpace_cons rfl]
      dsimp only
      rw [if_neg (by decide), if_pos rfl, parseArray, skipSpace_cons rfl]
      rfl
    | cons v vs =>
      obtain ⟨b, t, hhead, hspace, hclose⟩ := render_head (hvs v List.mem_cons_self)
      have hlen : 0 < (renderElements vs).length := by
        cases vs <;> exact Nat.succ_pos _
      rw [render, List.length_cons, List.length_append] at hfuel
      rw [depthElements] at hdepth
      obtain ⟨fuel, rfl⟩ : ∃ f, fuel = f + 2 := ⟨fuel - 2, by omega⟩
      have hv := ih v List.mem_cons_self fuel levels (renderElements vs ++ rest) (by omega) (by omega)
        (stops_elements vs rest)
      have hlevels : depthElements vs ≤ levels := by omega
      have hlength : 2 * (renderElements vs).length ≤ fuel := by omega
      have hrest := parseElements_render (fun u hu => ih u (List.mem_cons_of_mem v hu)) hlevels
        hlength rest
      have hskip : skipSpace (render v ++ (renderElements vs ++ rest)) =
          b :: (t ++ (renderElements vs ++ rest)) := by
        rw [hhead, List.cons_append, skipSpace_cons hspace]
      rw [hhead, List.cons_append] at hv
      rw [render, List.cons_append, List.append_assoc, parseValue, skipSpace_cons rfl]
      dsimp only
      rw [if_neg (by decide), if_pos rfl, parseArray, hskip]
      split
      · rename_i heq
        exact absurd (List.cons.inj heq).1 hclose
      · simp only [hv, hrest, Option.bind_eq_bind, Option.bind_some]
        rfl
  | object ms hms ih =>
    intro fuel levels rest hdepth hfuel _
    rw [depth] at hdepth
    obtain ⟨levels, rfl⟩ : ∃ l, levels = l + 1 := ⟨levels - 1, by omega⟩
    cases ms with
    | nil =>
      obtain ⟨fuel, rfl⟩ : ∃ f, fuel = f + 2 := ⟨fuel - 2, by
        have : (render (.object [])).length = 2 := rfl
        omega⟩
      rw [show render (.object []) ++ rest = 123 :: 125 :: rest from rfl, parseValue,
        skipSpace_cons rfl]
      dsimp only
      rw [if_neg (by decide), if_neg (by decide), if_pos rfl, parseObject, skipSpace_cons rfl]
      rfl
    | cons e ms =>
      obtain ⟨k, v⟩ := e
      rw [render, List.length_cons, List.length_append, List.length_cons, List.length_append] at hfuel
      rw [depthMembers] at hdepth
      obtain ⟨fuel, rfl⟩ : ∃ f, fuel = f + 2 := ⟨fuel - 2, by omega⟩
      have hv : ReadsBack v := ih (k, v) List.mem_cons_self
      have hlevels : v.depth ≤ levels := by omega
      have hlevels' : depthMembers ms ≤ levels := by omega
      have hlength : 2 * (render v).length < fuel := by omega
      have hlength' : 2 * (renderMembers ms).length ≤ fuel := by omega
      have hmember := parseMember_render hv hlevels hlength (stops_members ms rest) k
      have hrest := parseMembers_render (fun u hu => ih u (List.mem_cons_of_mem _ hu)) hlevels'
        hlength' rest
      have hskip : skipSpace (quote k ++ 58 :: (render v ++ (renderMembers ms ++ rest))) =
          quote k ++ 58 :: (render v ++ (renderMembers ms ++ rest)) := by
        rw [quote_append, skipSpace_cons rfl]
      rw [render, List.cons_append, List.append_assoc, List.cons_append, List.append_assoc,
        parseValue, skipSpace_cons rfl]
      dsimp only
      rw [if_neg (by decide), if_neg (by decide), if_pos rfl, parseObject, hskip]
      split
      · rename_i heq
        rw [quote_append] at heq
        exact absurd (List.cons.inj heq).1 (by decide)
      · simp only [hmember, hrest, Option.bind_eq_bind, Option.bind_some]
        rfl

/-- What was written is read as it shows. -/
theorem parse_render (h : Numeric v) (hdepth : v.depth ≤ maxNestingDepth) :
    parse (render v) = some (shown v) := by
  have hread := readsBack h (2 * (render v).length + 2) maxNestingDepth [] hdepth (by omega) stops_nil
  rw [List.append_nil] at hread
  rw [parse, hread]
  rfl

end

end Selebrow.Json
