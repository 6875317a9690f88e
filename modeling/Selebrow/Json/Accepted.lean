import Selebrow.Json.ReadBack
import Selebrow.Text.Encoded

/-!
# What the parser accepts

Every literal of a value that was read is a number by itself, every string is valid, and the
value nests no deeper than the parser follows.
-/

namespace Selebrow.Json

/-! ## Numbers -/

/-- A scanner divides its input, and what stands behind the part that it takes is of no
account. -/
def Divides (scan : GoString → Option (GoString × GoString)) : Prop :=
  ∀ s l r, scan s = some (l, r) → s = l ++ r ∧
    ∀ r' rest, r = r' ++ rest → scan (l ++ r') = some (l, r')

section

variable {s l r : GoString} {b : UInt8}

theorem all_takeWhile {p : UInt8 → Bool} (s : GoString) :
    (s.takeWhile p).takeWhile p = s.takeWhile p ∧ (s.takeWhile p).dropWhile p = [] := by
  induction s with
  | nil => exact ⟨rfl, rfl⟩
  | cons b s ih =>
    rw [List.takeWhile_cons]
    cases hb : p b with
    | true =>
      rw [if_pos rfl, List.takeWhile_cons, List.dropWhile_cons, hb, if_pos rfl, if_pos rfl]
      exact ⟨congrArg (b :: ·) ih.1, ih.2⟩
    | false => exact ⟨rfl, rfl⟩

theorem scanDigits_divides : Divides scanDigits := by
  intro s l r h
  rw [scanDigits] at h
  split at h
  · contradiction
  · rename_i hne
    obtain ⟨hl, hr⟩ := Prod.mk.inj (Option.some.inj h)
    refine ⟨by rw [← hl, ← hr, List.takeWhile_append_dropWhile], ?_⟩
    intro r' rest hrest
    have hhead : ∀ b ∈ r'.head?, isDigit b = false := by
      intro b hb
      have hdrop : (s.dropWhile isDigit).head? = some b := by
        rw [hr, hrest]
        cases r' with
        | nil => contradiction
        | cons c r' => exact hb
      have hnot := List.head?_dropWhile_not isDigit s
      rw [hdrop] at hnot
      simpa using hnot
    obtain ⟨htake, hdrop⟩ := all_takeWhile (p := isDigit) s
    rw [hl] at htake hdrop hne
    have htake' : (l ++ r').takeWhile isDigit = l := by
      rw [List.takeWhile_append, htake, if_pos rfl]
      cases r' with
      | nil => exact List.append_nil l
      | cons c r' =>
        rw [List.takeWhile_cons, hhead c rfl]
        exact List.append_nil l
    have hdrop' : (l ++ r').dropWhile isDigit = r' := by
      rw [List.dropWhile_append, hdrop]
      cases r' with
      | nil => rfl
      | cons c r' =>
        rw [List.dropWhile_cons, hhead c rfl]
        rfl
    rw [scanDigits, htake', hdrop', if_neg hne]

theorem map_divides {scan : GoString → Option (GoString × GoString)} (hscan : Divides scan)
    (h : (scan s).map (fun p => (b :: p.1, p.2)) = some (l, r)) :
    b :: s = l ++ r ∧ ∃ l', l = b :: l' ∧
      ∀ r' rest, r = r' ++ rest → scan (l' ++ r') = some (l', r') := by
  obtain ⟨⟨l', r'⟩, hp, heq⟩ := Option.map_eq_some_iff.mp h
  obtain ⟨rfl, rfl⟩ := Prod.mk.inj heq
  obtain ⟨hs, hcut⟩ := hscan _ _ _ hp
  exact ⟨by rw [hs]; rfl, l', rfl, hcut⟩

theorem scanInt_divides : Divides scanInt := by
  intro s l r h
  unfold scanInt at h
  split at h
  · obtain ⟨rfl, rfl⟩ := Prod.mk.inj (Option.some.inj h)
    exact ⟨rfl, fun r' rest _ => rfl⟩
  · rename_i hzero
    obtain ⟨hs, hcut⟩ := scanDigits_divides _ _ _ h
    refine ⟨hs, ?_⟩
    intro r' rest hrest
    obtain ⟨b, t, hb, _⟩ := digit_of_scanDigits (hcut r' rest hrest)
    unfold scanInt
    split
    · rename_i t' heq
      exfalso
      apply hzero (t' ++ rest)
      rw [hs, hrest, ← List.append_assoc, heq]
      rfl
    · exact hcut r' rest hrest

theorem scanFraction_divides : Divides scanFraction := by
  intro s l r h
  unfold scanFraction at h
  split at h
  · obtain ⟨hs, l', rfl, hcut⟩ := map_divides scanDigits_divides h
    refine ⟨hs, ?_⟩
    intro r' rest hrest
    rw [List.cons_append, scanFraction, hcut r' rest hrest]
    rfl
  · rename_i hdot
    obtain ⟨rfl, rfl⟩ := Prod.mk.inj (Option.some.inj h)
    refine ⟨rfl, ?_⟩
    intro r' rest hrest
    rw [List.nil_append]
    unfold scanFraction
    split
    · rename_i _ t
      exact absurd hrest (hdot (t ++ rest))
    · rfl

theorem scanExponentDigits_divides : Divides scanExponentDigits := by
  intro s l r h
  unfold scanExponentDigits at h
  split at h
  · obtain ⟨hs, l', rfl, hcut⟩ := map_divides scanDigits_divides h
    refine ⟨hs, ?_⟩
    intro r' rest hrest
    rw [List.cons_append, scanExponentDigits, hcut r' rest hrest]
    rfl
  · obtain ⟨hs, l', rfl, hcut⟩ := map_divides scanDigits_divides h
    refine ⟨hs, ?_⟩
    intro r' rest hrest
    rw [List.cons_append, scanExponentDigits, hcut r' rest hrest]
    rfl
  · rename_i hplus hminus
    obtain ⟨hs, hcut⟩ := scanDigits_divides _ _ _ h
    refine ⟨hs, ?_⟩
    intro r' rest hrest
    unfold scanExponentDigits
    split
    · rename_i t heq
      exfalso
      apply hplus (t ++ rest)
      rw [hs, hrest, ← List.append_assoc, heq]
      rfl
    · rename_i t heq
      exfalso
      apply hminus (t ++ rest)
      rw [hs, hrest, ← List.append_assoc, heq]
      rfl
    · exact hcut r' rest hrest

theorem scanExponent_divides : Divides scanExponent := by
  intro s l r h
  unfold scanExponent at h
  split at h
  · obtain ⟨hs, l', rfl, hcut⟩ := map_divides scanExponentDigits_divides h
    refine ⟨hs, ?_⟩
    intro r' rest hrest
    rw [List.cons_append, scanExponent, hcut r' rest hrest]
    rfl
  · obtain ⟨hs, l', rfl, hcut⟩ := map_divides scanExponentDigits_divides h
    refine ⟨hs, ?_⟩
    intro r' rest hrest
    rw [List.cons_append, scanExponent, hcut r' rest hrest]
    rfl
  · rename_i hsmall hlarge
    obtain ⟨rfl, rfl⟩ := Prod.mk.inj (Option.some.inj h)
    refine ⟨rfl, ?_⟩
    intro r' rest hrest
    rw [List.nil_append]
    unfold scanExponent
    split
    · rename_i _ t
      exact absurd hrest (hsmall (t ++ rest))
    · rename_i _ t
      exact absurd hrest (hlarge (t ++ rest))
    · rfl

theorem scanUnsigned_eq_some : scanUnsigned s = some (l, r) ↔
    ∃ int s' fraction s'' exponent, scanInt s = some (int, s') ∧
      scanFraction s' = some (fraction, s'') ∧ scanExponent s'' = some (exponent, r) ∧
        l = int ++ fraction ++ exponent := by
  rw [scanUnsigned]
  simp only [Option.bind_eq_bind, Option.bind_eq_some_iff, Prod.exists, pure, Option.some.injEq,
    Prod.mk.injEq]
  constructor
  · rintro ⟨int, s', hint, fraction, s'', hfraction, exponent, r', hexponent, rfl, rfl⟩
    exact ⟨int, s', fraction, s'', exponent, hint, hfraction, hexponent, rfl⟩
  · rintro ⟨int, s', fraction, s'', exponent, hint, hfraction, hexponent, rfl⟩
    exact ⟨int, s', hint, fraction, s'', hfraction, exponent, r, hexponent, rfl, rfl⟩

theorem scanUnsigned_divides : Divides scanUnsigned := by
  intro s l r h
  obtain ⟨int, s', fraction, s'', exponent, hint, hfraction, hexponent, rfl⟩ :=
    scanUnsigned_eq_some.mp h
  obtain ⟨hs, hcutInt⟩ := scanInt_divides _ _ _ hint
  obtain ⟨hs', hcutFraction⟩ := scanFraction_divides _ _ _ hfraction
  obtain ⟨hs'', hcutExponent⟩ := scanExponent_divides _ _ _ hexponent
  refine ⟨by rw [hs, hs', hs'', List.append_assoc, List.append_assoc], ?_⟩
  intro r' rest hrest
  rw [hrest] at hs''
  apply scanUnsigned_eq_some.mpr
  refine ⟨int, fraction ++ (exponent ++ r'), fraction, exponent ++ r', exponent, ?_, ?_, ?_, rfl⟩
  · rw [List.append_assoc, List.append_assoc]
    exact hcutInt _ rest (by rw [hs', hs'', List.append_assoc, List.append_assoc])
  · exact hcutFraction _ rest (by rw [hs'', List.append_assoc])
  · exact hcutExponent r' rest hrest

theorem scanNumber_divides : Divides scanNumber := by
  intro s l r h
  unfold scanNumber at h
  split at h
  · obtain ⟨hs, l', rfl, hcut⟩ := map_divides scanUnsigned_divides h
    refine ⟨hs, ?_⟩
    intro r' rest hrest
    rw [List.cons_append, scanNumber, hcut r' rest hrest]
    rfl
  · rename_i hminus
    obtain ⟨hs, hcut⟩ := scanUnsigned_divides _ _ _ h
    refine ⟨hs, ?_⟩
    intro r' rest hrest
    unfold scanNumber
    split
    · rename_i t heq
      exfalso
      apply hminus (t ++ rest)
      rw [hs, hrest, ← List.append_assoc, heq]
      rfl
    · exact hcut r' rest hrest

theorem isNumber_of_scan (h : scanNumber s = some (l, r)) : IsNumber l := by
  have hcut := (scanNumber_divides _ _ _ h).2 [] r rfl
  rw [List.append_nil] at hcut
  exact hcut

end

/-! ## Strings -/

section

open Text

variable {b : UInt8} {c r s t : GoString}

/-- Nothing in it is replaced, whatever follows. -/
def Whole (c : GoString) : Prop := ∀ r, toValidUTF8 (c ++ r) = c ++ toValidUTF8 r

theorem whole_encodeRune (u : Nat) : Whole (encodeRune u) := toValidUTF8_encode _

theorem whole_replacement : Whole replacement := toValidUTF8_replacement

theorem whole_unescapeUnit (u : Nat) (s : GoString) : Whole (unescapeUnit u s).1 := by
  unfold unescapeUnit
  repeat' split
  all_goals first
    | exact whole_encodeRune _
    | exact whole_replacement

theorem unescapeByte_lt {e : UInt8} (h : unescapeByte e = some b) : b < 0x80 := by
  unfold unescapeByte at h
  split at h
  · rename_i he
    cases h
    rcases he with rfl | rfl | rfl <;> decide
  repeat' split at h
  all_goals first
    | contradiction
    | cases h
      decide

theorem whole_scanRune (h : scanRune b s = some (c, t)) : Whole c := by
  unfold scanRune at h
  split at h
  · unfold scanEscape at h
    split at h
    · contradiction
    split at h
    · obtain ⟨u, _, heq⟩ := Option.map_eq_some_iff.mp h
      rw [← (Prod.mk.inj heq).1]
      exact whole_unescapeUnit u.1 u.2
    · obtain ⟨e, he, heq⟩ := Option.map_eq_some_iff.mp h
      rw [← (Prod.mk.inj heq).1]
      exact toValidUTF8_ascii (unescapeByte_lt he)
  split at h
  · contradiction
  split at h
  · rename_i hb
    cases h
    exact toValidUTF8_ascii hb
  split at h
  · cases h
    exact whole_replacement
  · rename_i n hn
    cases h
    intro r
    have hlen : (s.take n).length = n := by
      have := runeLength_le hn
      rw [List.length_take]
      omega
    have hdrop : (s.take n ++ r).drop n = r := by
      rw [List.drop_append, hlen, Nat.sub_self, List.drop_of_length_le (Nat.le_of_eq hlen)]
      rfl
    have htake : (s.take n ++ r).take n = s.take n := by
      rw [List.take_append, hlen, Nat.sub_self, List.take_of_length_le (Nat.le_of_eq hlen)]
      exact List.append_nil _
    rw [List.cons_append, toValidUTF8_rune (runeLength_take hn r), hdrop, htake]
    rfl

/-- What was scanned is valid UTF-8. -/
theorem scanString_valid {fuel : Nat} (h : scanString fuel s = some (r, t)) : toValidUTF8 r = r := by
  induction fuel generalizing s r with
  | zero => contradiction
  | succ fuel ih =>
    cases s with
    | nil => contradiction
    | cons b s =>
      rw [scanString] at h
      split at h
      · cases h
        rfl
      · obtain ⟨⟨c, s'⟩, hc, h⟩ := Option.bind_eq_some_iff.mp h
        obtain ⟨⟨r', t'⟩, hr, heq⟩ := Option.map_eq_some_iff.mp h
        obtain ⟨rfl, rfl⟩ := Prod.mk.inj heq
        rw [whole_scanRune hc, ih hr]

end

/-! ## Values -/

/-- A value that can be written so that it is read again. -/
structure Accepted (levels : Nat) (v : Json) : Prop where
  numeric : Numeric v
  valid : shown v = v
  depth : v.depth ≤ levels

section

variable {levels : Nat} {v : Json} {vs : List Json} {ms : List (GoString × Json)}

theorem Accepted.leaf (hn : Numeric v) (hv : shown v = v) (hd : v.depth = 0) : Accepted levels v :=
  ⟨hn, hv, by rw [hd]; exact Nat.zero_le _⟩

theorem shownElements_eq (h : ∀ v ∈ vs, shown v = v) : shownElements vs = vs := by
  induction vs with
  | nil => rfl
  | cons v vs ih =>
    rw [shownElements, h v List.mem_cons_self, ih fun u hu => h u (List.mem_cons_of_mem v hu)]

theorem shownMembers_eq (h : ∀ e ∈ ms, Text.toValidUTF8 e.1 = e.1 ∧ shown e.2 = e.2) :
    shownMembers ms = ms := by
  induction ms with
  | nil => rfl
  | cons e ms ih =>
    obtain ⟨k, v⟩ := e
    obtain ⟨hk, hv⟩ := h (k, v) List.mem_cons_self
    rw [shownMembers, ih fun u hu => h u (List.mem_cons_of_mem _ hu)]
    rw [show Text.toValidUTF8 k = k from hk, show shown v = v from hv]

/-- A member of an object that is read. -/
def AcceptedMember (levels : Nat) (e : GoString × Json) : Prop :=
  Text.toValidUTF8 e.1 = e.1 ∧ Accepted levels e.2

theorem Accepted.array (h : ∀ v ∈ vs, Accepted levels v) : Accepted (levels + 1) (.array vs) := by
  refine ⟨.array vs fun v hv => (h v hv).numeric, ?_, ?_⟩
  · rw [shown, shownElements_eq fun v hv => (h v hv).valid]
  rw [Json.depth]
  apply Nat.succ_le_succ
  induction vs with
  | nil => exact Nat.zero_le _
  | cons v vs ih =>
    rw [depthElements]
    have hv := (h v List.mem_cons_self).depth
    have hvs := ih fun u hu => h u (List.mem_cons_of_mem v hu)
    omega

theorem Accepted.object (h : ∀ e ∈ ms, AcceptedMember levels e) :
    Accepted (levels + 1) (.object ms) := by
  refine ⟨.object ms fun e he => (h e he).2.numeric, ?_, ?_⟩
  · rw [shown, shownMembers_eq fun e he => ⟨(h e he).1, (h e he).2.valid⟩]
  rw [Json.depth]
  apply Nat.succ_le_succ
  induction ms with
  | nil => exact Nat.zero_le _
  | cons e ms ih =>
    obtain ⟨k, v⟩ := e
    rw [depthMembers]
    have hv : v.depth ≤ levels := (h (k, v) List.mem_cons_self).2.depth
    have hms := ih fun u hu => h u (List.mem_cons_of_mem _ hu)
    omega

/-- What the functions of the parser give with this fuel. -/
structure Sound (fuel : Nat) : Prop where
  value : ∀ levels s v r, parseValue fuel levels s = some (v, r) → Accepted levels v
  array : ∀ levels s v r, parseArray fuel levels s = some (v, r) → Accepted levels v
  object : ∀ levels s v r, parseObject fuel levels s = some (v, r) → Accepted levels v
  elements : ∀ levels s vs r, parseElements fuel levels s = some (vs, r) → ∀ v ∈ vs, Accepted levels v
  member : ∀ levels s m r, parseMember fuel levels s = some (m, r) → AcceptedMember levels m
  members : ∀ levels s ms r, parseMembers fuel levels s = some (ms, r) →
    ∀ e ∈ ms, AcceptedMember levels e

theorem Sound.value_succ {fuel : Nat} (h : Sound fuel) (s r : GoString)
    (hp : parseValue (fuel + 1) levels s = some (v, r)) : Accepted levels v := by
  rw [parseValue] at hp
  split at hp
  · contradiction
  split at hp
  · obtain ⟨⟨r', t'⟩, hscan, heq⟩ := Option.map_eq_some_iff.mp hp
    cases heq
    exact .leaf (.string _) (by rw [shown, scanString_valid hscan]) rfl
  split at hp
  · exact h.array _ _ _ _ hp
  split at hp
  · exact h.object _ _ _ _ hp
  split at hp
  · obtain ⟨p, _, heq⟩ := Option.map_eq_some_iff.mp hp
    cases heq
    exact .leaf (.bool true) rfl rfl
  split at hp
  · obtain ⟨p, _, heq⟩ := Option.map_eq_some_iff.mp hp
    cases heq
    exact .leaf (.bool false) rfl rfl
  split at hp
  · obtain ⟨p, _, heq⟩ := Option.map_eq_some_iff.mp hp
    cases heq
    exact .leaf .null rfl rfl
  · obtain ⟨p, hscan, heq⟩ := Option.map_eq_some_iff.mp hp
    cases heq
    exact .leaf (.number _ (isNumber_of_scan hscan)) rfl rfl

theorem Sound.array_succ {fuel : Nat} (h : Sound fuel) (s r : GoString)
    (hp : parseArray (fuel + 1) levels s = some (v, r)) : Accepted levels v := by
  cases levels with
  | zero =>
    rw [parseArray] at hp
    contradiction
  | succ levels =>
    rw [parseArray] at hp
    split at hp
    · cases hp
      apply Accepted.array
      intro v hv
      contradiction
    · simp only [Option.bind_eq_bind, Option.bind_eq_some_iff, Prod.exists, pure, Option.some.injEq,
        Prod.mk.injEq] at hp
      obtain ⟨u, _, hu, us, _, hus, rfl, _⟩ := hp
      apply Accepted.array
      intro w hw
      rcases List.mem_cons.mp hw with rfl | hw
      · exact h.value _ _ _ _ hu
      · exact h.elements _ _ _ _ hus w hw

theorem Sound.object_succ {fuel : Nat} (h : Sound fuel) (s r : GoString)
    (hp : parseObject (fuel + 1) levels s = some (v, r)) : Accepted levels v := by
  cases levels with
  | zero =>
    rw [parseObject] at hp
    contradiction
  | succ levels =>
    rw [parseObject] at hp
    split at hp
    · cases hp
      apply Accepted.object
      intro e he
      contradiction
    · simp only [Option.bind_eq_bind, Option.bind_eq_some_iff, Prod.exists, pure, Option.some.injEq,
        Prod.mk.injEq] at hp
      obtain ⟨k, u, _, hu, us, _, hus, rfl, _⟩ := hp
      apply Accepted.object
      intro e he
      rcases List.mem_cons.mp he with rfl | he
      · exact h.member _ _ _ _ hu
      · exact h.members _ _ _ _ hus e he

theorem sound (fuel : Nat) : Sound fuel := by
  induction fuel with
  | zero =>
    constructor
    · intro _ _ _ _ h
      rw [parseValue] at h
      contradiction
    · intro _ _ _ _ h
      rw [parseArray] at h
      contradiction
    · intro _ _ _ _ h
      rw [parseObject] at h
      contradiction
    · intro _ _ _ _ h
      rw [parseElements] at h
      contradiction
    · intro _ _ _ _ h
      rw [parseMember] at h
      contradiction
    · intro _ _ _ _ h
      rw [parseMembers] at h
      contradiction
  | succ fuel ih =>
    constructor
    · intro levels s v r h
      exact ih.value_succ s r h
    · intro levels s v r h
      exact ih.array_succ s r h
    · intro levels s v r h
      exact ih.object_succ s r h
    · intro levels s vs r h
      rw [parseElements] at h
      split at h
      · cases h
        intro v hv
        contradiction
      · simp only [Option.bind_eq_bind, Option.bind_eq_some_iff, Prod.exists, pure, Option.some.injEq,
          Prod.mk.injEq] at h
        obtain ⟨u, _, hu, us, _, hus, rfl, _⟩ := h
        intro v hv
        rcases List.mem_cons.mp hv with rfl | hv
        · exact ih.value _ _ _ _ hu
        · exact ih.elements _ _ _ _ hus v hv
      · contradiction
    · intro levels s m r h
      rw [parseMember] at h
      split at h
      · simp only [Option.bind_eq_bind, Option.bind_eq_some_iff, Prod.exists] at h
        obtain ⟨k, s', hk, h⟩ := h
        split at h
        · simp only [Option.bind_eq_some_iff, Prod.exists, pure, Option.some.injEq,
            Prod.mk.injEq] at h
          obtain ⟨u, _, hu, rfl, _⟩ := h
          exact ⟨scanString_valid hk, ih.value _ _ _ _ hu⟩
        · contradiction
      · contradiction
    · intro levels s ms r h
      rw [parseMembers] at h
      split at h
      · cases h
        intro e he
        contradiction
      · simp only [Option.bind_eq_bind, Option.bind_eq_some_iff, Prod.exists, pure, Option.some.injEq,
          Prod.mk.injEq] at h
        obtain ⟨k, u, _, hu, us, _, hus, rfl, _⟩ := h
        intro e he
        rcases List.mem_cons.mp he with rfl | he
        · exact ih.member _ _ _ _ hu
        · exact ih.members _ _ _ _ hus e he
      · contradiction

theorem accepted_of_parse {text : GoString} (h : parse text = some v) : Accepted maxNestingDepth v := by
  rw [parse] at h
  split at h
  · rename_i u rest hread
    split at h
    · cases h
      exact (sound _).value _ _ _ _ hread
    · contradiction
  · contradiction

/-! ## Values that are built anew -/

theorem Accepted.of_array (h : Accepted levels (.array vs)) :
    ∃ n, levels = n + 1 ∧ ∀ v ∈ vs, Accepted n v := by
  obtain ⟨hnumeric, hvalid, hdepth⟩ := h
  cases hnumeric with
  | array vs hnumeric =>
    rw [shown, Json.array.injEq] at hvalid
    rw [Json.depth] at hdepth
    obtain ⟨n, rfl⟩ := Nat.exists_eq_add_of_le' (Nat.le_trans (Nat.le_add_left 1 _) hdepth)
    refine ⟨n, rfl, ?_⟩
    intro v hv
    refine ⟨hnumeric v hv, ?_, ?_⟩
    · clear hnumeric hdepth
      induction vs with
      | nil => contradiction
      | cons u vs ih =>
        rw [shownElements] at hvalid
        obtain ⟨hu, hvs⟩ := List.cons.inj hvalid
        rcases List.mem_cons.mp hv with rfl | hv
        · exact hu
        · exact ih hvs hv
    · have hle := depth_le_elements hv
      omega

theorem Accepted.of_object (h : Accepted levels (.object ms)) :
    ∃ n, levels = n + 1 ∧ ∀ e ∈ ms, AcceptedMember n e := by
  obtain ⟨hnumeric, hvalid, hdepth⟩ := h
  cases hnumeric with
  | object ms hnumeric =>
    rw [shown, Json.object.injEq] at hvalid
    rw [Json.depth] at hdepth
    obtain ⟨n, rfl⟩ := Nat.exists_eq_add_of_le' (Nat.le_trans (Nat.le_add_left 1 _) hdepth)
    refine ⟨n, rfl, ?_⟩
    have hle : depthMembers ms ≤ n := Nat.le_of_succ_le_succ hdepth
    clear hdepth
    induction ms with
    | nil =>
      intro e he
      contradiction
    | cons u ms ih =>
      obtain ⟨k, v⟩ := u
      rw [shownMembers] at hvalid
      obtain ⟨hu, hms⟩ := List.cons.inj hvalid
      obtain ⟨hk, hv⟩ := Prod.mk.inj hu
      rw [depthMembers] at hle
      rw [List.forall_mem_cons] at hnumeric
      rw [List.forall_mem_cons]
      constructor
      · exact ⟨hk, hnumeric.1, hv, Nat.le_trans (Nat.le_max_left _ _) hle⟩
      · exact ih hms hnumeric.2 (Nat.le_trans (Nat.le_max_right _ _) hle)

/-- A function that keeps the form of a value and is applied at every depth. -/
structure Rebuilds (f : Json → Json) : Prop where
  null : f .null = .null
  bool : ∀ b, f (.bool b) = .bool b
  string : ∀ s, f (.string s) = .string s
  number : ∀ literal, IsNumber literal →
    ∃ literal', f (.number literal) = .number literal' ∧ IsNumber literal'
  array : ∀ vs, ∃ us, f (.array vs) = .array us ∧ ∀ u ∈ us, ∃ v ∈ vs, u = f v
  object : ∀ ms, ∃ us, f (.object ms) = .object us ∧ ∀ u ∈ us, ∃ e ∈ ms, u = (e.1, f e.2)

theorem Rebuilds.accepted {f : Json → Json} (hf : Rebuilds f) (h : Accepted levels v) :
    Accepted levels (f v) := by
  have hnumeric := h.numeric
  induction hnumeric generalizing levels with
  | null =>
    rw [hf.null]
    exact h
  | bool b =>
    rw [hf.bool]
    exact h
  | string s =>
    rw [hf.string]
    exact h
  | number literal hl =>
    obtain ⟨literal', heq, hl'⟩ := hf.number literal hl
    rw [heq]
    exact .leaf (.number _ hl') rfl rfl
  | array vs _ ih =>
    obtain ⟨n, rfl, hvs⟩ := h.of_array
    obtain ⟨us, heq, hus⟩ := hf.array vs
    rw [heq]
    apply Accepted.array
    intro u hu
    obtain ⟨v, hv, rfl⟩ := hus u hu
    exact ih v hv (hvs v hv)
  | object ms _ ih =>
    obtain ⟨n, rfl, hms⟩ := h.of_object
    obtain ⟨us, heq, hus⟩ := hf.object ms
    rw [heq]
    apply Accepted.object
    intro u hu
    obtain ⟨e, he, rfl⟩ := hus u hu
    exact ⟨(hms e he).1, ih e he (hms e he).2⟩

end

end Selebrow.Json
