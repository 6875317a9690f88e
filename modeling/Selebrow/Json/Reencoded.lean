import Selebrow.Json.Accepted
import Selebrow.Json.RoundTrip

/-!
# Numbers that are written again

`encoding/json` decodes a number into a double and writes the shortest text of that.  What it
writes is a number by the rules of the parser too: no leading zero, a digit on each side of
the point, and a signed exponent.
-/

namespace Selebrow.Json

/-- The parts of an unsigned literal. -/
structure Literal (w f t : GoString) : Prop where
  whole : w = [48] ∨ ∃ b w', w = b :: w' ∧ b ≠ 48 ∧ AllDigits w
  fraction : f = [] ∨ ∃ f', f = 46 :: f' ∧ f' ≠ [] ∧ AllDigits f'
  exponent : t = [] ∨ ∃ b t', t = 101 :: b :: t' ∧ (b = 43 ∨ b = 45) ∧ t' ≠ [] ∧ AllDigits t'

/-- The text of an unsigned number. -/
def Unsigned (text : GoString) : Prop := ∃ w f t, Literal w f t ∧ text = w ++ f ++ t

section

variable {s w f t : GoString} {b : UInt8} {d : Nat} {x exp : Int}

theorem isDigit_iff : isDigit b = true ↔ 48 ≤ b ∧ b ≤ 57 := by
  rw [isDigit, Bool.and_eq_true, decide_eq_true_eq, decide_eq_true_eq]

theorem scanDigits_append (hne : s ≠ []) (hs : AllDigits s)
    (ht : t = [] ∨ ∃ b t', t = b :: t' ∧ isDigit b = false) : scanDigits (s ++ t) = some (s, t) := by
  obtain ⟨htake, hdrop⟩ := takeWhile_append_stop (p := isDigit) (fun b hb => isDigit_iff.mpr (hs b hb)) ht
  rw [scanDigits, htake, hdrop, if_neg hne]

theorem scanDigits_self (hne : s ≠ []) (hs : AllDigits s) : scanDigits s = some (s, []) := by
  have h := scanDigits_append hne hs (t := []) (.inl rfl)
  rw [List.append_nil] at h
  exact h

theorem Literal.scanUnsigned (h : Literal w f t) : scanUnsigned (w ++ f ++ t) = some (w ++ f ++ t, []) := by
  have hexponent : scanExponent t = some (t, []) := by
    rcases h.exponent with rfl | ⟨b, t', rfl, rfl | rfl, hne, hdigits⟩
    · rfl
    · rw [scanExponent, scanExponentDigits, scanDigits_self hne hdigits]
      rfl
    · rw [scanExponent, scanExponentDigits, scanDigits_self hne hdigits]
      rfl
  have hstop : t = [] ∨ ∃ b t', t = b :: t' ∧ isDigit b = false := by
    rcases h.exponent with rfl | ⟨b, t', rfl, _⟩
    · exact .inl rfl
    · exact .inr ⟨101, _, rfl, rfl⟩
  have hfraction : scanFraction (f ++ t) = some (f, t) := by
    rcases h.fraction with rfl | ⟨f', rfl, hne, hdigits⟩
    · rcases h.exponent with rfl | ⟨b, t', rfl, _⟩
      · rfl
      · rfl
    · rw [List.cons_append, scanFraction, scanDigits_append hne hdigits hstop]
      rfl
  have hstop' : f ++ t = [] ∨ ∃ b t', f ++ t = b :: t' ∧ isDigit b = false := by
    rcases h.fraction with rfl | ⟨f', rfl, _⟩
    · exact hstop
    · exact .inr ⟨46, _, rfl, rfl⟩
  have hint : scanInt (w ++ (f ++ t)) = some (w, f ++ t) := by
    rcases h.whole with rfl | ⟨b, w', rfl, hb, hdigits⟩
    · rfl
    · have hscan := scanDigits_append (List.cons_ne_nil b w') hdigits hstop'
      unfold scanInt
      split
      · rename_i heq
        exact absurd (List.cons.inj heq).1 hb
      · exact hscan
  rw [List.append_assoc]
  exact scanUnsigned_eq_some.mpr ⟨w, _, f, t, t, hint, hfraction, hexponent, (List.append_assoc _ _ _).symm⟩

theorem Unsigned.isNumber (h : Unsigned s) (negative : Bool) :
    IsNumber (if negative then bytes "-" ++ s else s) := by
  obtain ⟨w, f, t, hliteral, rfl⟩ := h
  have hscan := hliteral.scanUnsigned
  cases negative with
  | true =>
    show (scanUnsigned (w ++ f ++ t)).map (fun r => (45 :: r.1, r.2)) = some (45 :: (w ++ f ++ t), [])
    rw [hscan]
    rfl
  | false =>
    show scanNumber (w ++ f ++ t) = some (w ++ f ++ t, [])
    unfold scanNumber
    split
    · rename_i s' heq
      exfalso
      rcases hliteral.whole with rfl | ⟨b, w', rfl, _, hdigits⟩
      · exact absurd (List.cons.inj heq).1 (by decide)
      · have hb := (hdigits b List.mem_cons_self).1
        rw [(List.cons.inj heq).1] at hb
        exact absurd hb (by decide)
    · exact hscan

/-! ## Numbers written in decimal -/

theorem head_toString (h : 0 < d) : ∃ b w, bytes (toString d) = b :: w ∧ b ≠ 48 := by
  induction d using Nat.strong_induction_on with
  | _ d ih =>
    rcases Nat.lt_or_ge d 10 with hlt | hge
    · refine ⟨_, [], bytes_toString_small hlt, ?_⟩
      intro hb
      have hn := digit_toNat hlt
      rw [hb] at hn
      have h48 : (48 : UInt8).toNat = 48 := rfl
      omega
    · obtain ⟨b, w, hw, hb⟩ := ih (d / 10) (by omega) (by omega)
      exact ⟨b, w ++ [UInt8.ofNat (48 + d % 10)], by rw [bytes_toString_large hge, hw]; rfl, hb⟩

theorem whole_toString (d : Nat) :
    bytes (toString d) = [48] ∨
      ∃ b w, bytes (toString d) = b :: w ∧ b ≠ 48 ∧ AllDigits (bytes (toString d)) := by
  rcases Nat.eq_zero_or_pos d with rfl | hd
  · exact .inl rfl
  · obtain ⟨b, w, hw, hb⟩ := head_toString hd
    exact .inr ⟨b, w, hw, hb, allDigits_toString d⟩

theorem unsigned_nat (n : Nat) : Unsigned (bytes (toString n)) :=
  ⟨_, [], [], ⟨whole_toString n, .inl rfl, .inl rfl⟩, by rw [List.append_nil, List.append_nil]⟩

theorem bytes_negSucc (n : Nat) :
    bytes (toString (Int.negSucc n)) = bytes "-" ++ bytes (toString (n + 1)) := by
  rw [show toString (Int.negSucc n) = "-" ++ toString (n + 1) from rfl]
  show List.flatMap String.utf8EncodeChar ("-" ++ toString (n + 1)).toList = _
  rw [String.toList_append, List.flatMap_append]
  rfl

/-- An `int64` as `strconv` writes it. -/
theorem isNumber_int (i : Int) : IsNumber (bytes (toString i)) := by
  cases i with
  | ofNat n => exact (unsigned_nat n).isNumber false
  | negSucc n =>
    rw [bytes_negSucc]
    exact (unsigned_nat (n + 1)).isNumber true

theorem carry_small {e : Int} (he : e < 971) (m : Nat) : (carry m e).isSome = true := by
  unfold carry
  by_cases hm : m = Nat.pow 2 53
  · simp only [if_pos hm]
    rw [if_neg (by omega)]
    rfl
  · simp only [if_neg hm]
    rw [if_neg (by omega)]
    rfl

theorem roundFloat64_whole {n : Nat} (h : n < 2 ^ 64) : (roundFloat64 n 1).isSome = true := by
  rcases Nat.eq_zero_or_pos n with rfl | hn
  · rfl
  have hlog : n.log2 < 64 := (Nat.log2_lt (Nat.pos_iff_ne_zero.mp hn)).mpr h
  have hfloor : floorLog2 n 1 ≤ n.log2 := by
    have hone : Nat.log2 1 = 0 := by decide
    rw [floorLog2, hone]
    split <;> omega
  have hbit : lastBit n 1 ≤ 11 := by
    rw [lastBit]
    omega
  rw [roundFloat64_eq hn]
  exact carry_small (by omega) _

theorem parseFloat_nat {n : Nat} (h : n < 2 ^ 64) (negative : Bool) :
    (parseFloat ((if negative then bytes "-" else []) ++ bytes (toString n))).isSome = true := by
  have hparts : Parts (bytes (toString n)) [] [] :=
    ⟨toString_ne_nil n, allDigits_toString n, .inl rfl, .inl rfl⟩
  have hnumber := parseNumber_parts hparts negative
  rw [List.append_nil, List.append_nil, List.tail_nil, List.append_nil, digitsValue_toString] at hnumber
  rw [parseFloat, hnumber]
  show ((roundFloat64 (n * 1) 1).map _).isSome = true
  rw [Nat.mul_one, Option.isSome_map]
  exact roundFloat64_whole h

theorem parseFloat_int {i : Int} (hlow : -2 ^ 63 ≤ i) (hhigh : i < 2 ^ 63) :
    (parseFloat (bytes (toString i))).isSome = true := by
  cases i with
  | ofNat n =>
    have hn : (n : Int) < 2 ^ 63 := hhigh
    exact parseFloat_nat (by omega) false
  | negSucc n =>
    rw [bytes_negSucc]
    exact parseFloat_nat (by omega) true

theorem unsigned_formatPlain (h : 0 < d) (x : Int) : Unsigned (formatPlain (bytes (toString d)) x) := by
  obtain ⟨b, w, hw, hb⟩ := head_toString h
  have hdigits := allDigits_toString d
  rw [hw] at hdigits ⊢
  rw [formatPlain]
  split
  · refine ⟨b :: w ++ zeros x.toNat, [], [], ⟨.inr ⟨b, _, rfl, hb, ?_⟩, .inl rfl, .inl rfl⟩, ?_⟩
    · exact hdigits.append (allDigits_zeros _)
    · rw [List.append_nil, List.append_nil]
  · rename_i hx
    dsimp only
    split
    · rename_i hlen
      have hpos : 0 < (b :: w).length - (-x).toNat := by omega
      refine ⟨(b :: w).take ((b :: w).length - (-x).toNat),
        46 :: (b :: w).drop ((b :: w).length - (-x).toNat), [], ⟨.inr ?_, .inr ⟨_, rfl, ?_, ?_⟩, .inl rfl⟩,
        (List.append_assoc _ _ _).trans (List.append_nil _).symm⟩
      · obtain ⟨n, hn⟩ : ∃ n, (b :: w).length - (-x).toNat = n + 1 :=
          ⟨(b :: w).length - (-x).toNat - 1, by omega⟩
        rw [hn, List.take_succ_cons]
        refine ⟨b, w.take n, rfl, hb, ?_⟩
        have htake := allDigits_take hdigits (n + 1)
        rw [List.take_succ_cons] at htake
        exact htake
      · intro hnil
        have hzero := congrArg List.length hnil
        rw [List.length_drop, List.length_nil] at hzero
        omega
      · exact allDigits_drop hdigits _
    · refine ⟨[48], 46 :: (zeros ((-x).toNat - (b :: w).length) ++ (b :: w)), [],
        ⟨.inl rfl, .inr ⟨_, rfl, ?_, (allDigits_zeros _).append hdigits⟩, .inl rfl⟩,
        (List.append_nil _).symm⟩
      exact List.append_ne_nil_of_right_ne_nil _ (List.cons_ne_nil b w)

theorem unsigned_formatExponent (h : 0 < d) (exp : Int) :
    Unsigned (formatExponent (bytes (toString d)) exp) := by
  obtain ⟨b, w, hw, hb⟩ := head_toString h
  have hdigits := allDigits_toString d
  rw [hw] at hdigits ⊢
  rw [formatExponent]
  refine ⟨[b], if (b :: w).length = 1 then [] else bytes "." ++ w,
    101 :: (bytes (if exp < 0 then "-" else "+") ++ bytes (toString exp.natAbs)), ⟨?_, ?_, ?_⟩, ?_⟩
  · refine .inr ⟨b, [], rfl, hb, ?_⟩
    exact allDigits_take hdigits 1
  · split
    · exact .inl rfl
    · rename_i hlen
      refine .inr ⟨w, rfl, ?_, allDigits_drop hdigits 1⟩
      rintro rfl
      exact hlen rfl
  · refine .inr ?_
    split
    · exact ⟨45, _, rfl, .inr rfl, toString_ne_nil _, allDigits_toString _⟩
    · exact ⟨43, _, rfl, .inl rfl, toString_ne_nil _, allDigits_toString _⟩
  · rw [List.append_assoc, List.append_assoc]
    rfl

theorem roundDecimal_zero (x : Int) : roundDecimal 0 x = some (0, 0) := by
  rw [roundDecimal, Nat.zero_mul, roundFloat64, if_pos rfl]

theorem isNumber_formatFloat {literal : GoString} {v : Float64} (h : parseFloat literal = some v) :
    IsNumber (formatFloat v) := by
  rw [formatFloat]
  apply Unsigned.isNumber
  split
  · exact ⟨[48], [], [], ⟨.inl rfl, .inl rfl, .inl rfl⟩, rfl⟩
  · rename_i hm
    have hpos := Nat.pos_of_ne_zero hm
    have hround := trimZeros_rounds 17 (shortest v.mantissa v.exponent).1
      (shortest v.mantissa v.exponent).2
    rw [shortest_rounds hpos ((parseFloat_fits h).resolve_left hm)] at hround
    generalize trimZeros 17 (shortest v.mantissa v.exponent) = y at hround ⊢
    obtain ⟨d, x⟩ := y
    dsimp only at hround ⊢
    have hd : 0 < d := by
      apply Nat.pos_of_ne_zero
      rintro rfl
      rw [roundDecimal_zero] at hround
      exact hm (congrArg Prod.fst (Option.some.inj hround)).symm
    split
    · exact unsigned_formatExponent hd _
    · exact unsigned_formatPlain hd x

theorem isNumber_reencode (h : IsNumber s) : IsNumber (reencode s) := by
  rw [reencode]
  cases hf : parseFloat s with
  | none => exact h
  | some v => exact isNumber_formatFloat hf

end

/-! ## Values -/

theorem mapElements_eq (f : GoString → GoString) (vs : List Json) :
    mapElements f vs = vs.map (mapNumbers f) := by
  induction vs with
  | nil => rfl
  | cons v vs ih => rw [mapElements, ih, List.map_cons]

theorem mapMembers_eq (f : GoString → GoString) (ms : List (GoString × Json)) :
    mapMembers f ms = ms.map fun e => (e.1, mapNumbers f e.2) := by
  induction ms with
  | nil => rfl
  | cons e ms ih =>
    obtain ⟨k, v⟩ := e
    rw [mapMembers, ih, List.map_cons]

theorem reencode_rebuilds : Rebuilds (mapNumbers reencode) where
  null := rfl
  bool _ := rfl
  string _ := rfl
  number _ h := ⟨_, rfl, isNumber_reencode h⟩
  array vs := by
    refine ⟨_, rfl, ?_⟩
    intro u hu
    rw [mapElements_eq] at hu
    obtain ⟨v, hv, rfl⟩ := List.mem_map.mp hu
    exact ⟨v, hv, rfl⟩
  object ms := by
    refine ⟨_, rfl, ?_⟩
    intro u hu
    rw [mapMembers_eq] at hu
    obtain ⟨e, he, rfl⟩ := List.mem_map.mp hu
    exact ⟨e, he, rfl⟩

end Selebrow.Json
