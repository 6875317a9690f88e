import Selebrow.Go

/-!
# Valid UTF-8 and white space

`json.Marshal` puts the replacement character for each byte of a string that is not part
of a valid encoding.  `strings.TrimSpace` cuts the white space of Unicode off at both ends.
-/

namespace Selebrow.Text

/-! ## Valid UTF-8 -/

/-- How many bytes follow a first byte, and the range of the first of them. -/
def leadByte (b : UInt8) : Option (Nat × UInt8 × UInt8) :=
  if 0xC2 ≤ b ∧ b ≤ 0xDF then some (1, 0x80, 0xBF)
  else if b = 0xE0 then some (2, 0xA0, 0xBF)
  else if b = 0xED then some (2, 0x80, 0x9F)
  else if 0xE1 ≤ b ∧ b ≤ 0xEF then some (2, 0x80, 0xBF)
  else if b = 0xF0 then some (3, 0x90, 0xBF)
  else if 0xF1 ≤ b ∧ b ≤ 0xF3 then some (3, 0x80, 0xBF)
  else if b = 0xF4 then some (3, 0x80, 0x8F)
  else none

/-- The string goes on with so many bytes, the first one in this range. -/
def follows : Nat → UInt8 → UInt8 → GoString → Bool
  | 0, _, _, _ => true
  | _ + 1, _, _, [] => false
  | n + 1, low, high, b :: s => low ≤ b && b ≤ high && follows n 0x80 0xBF s

/-- The length of the character at the front, 0 if there is no valid one. -/
def runeLength : GoString → Nat
  | [] => 0
  | b :: s =>
    if b < 0x80 then 1
    else
      match leadByte b with
      | none => 0
      | some (n, low, high) => if follows n low high s then n + 1 else 0

def replacement : GoString := [0xEF, 0xBF, 0xBD]

def coerce : Nat → GoString → GoString
  | 0, _ => []
  | _ + 1, [] => []
  | fuel + 1, b :: s =>
    match runeLength (b :: s) with
    | 0 => replacement ++ coerce fuel s
    | n + 1 => b :: (s.take n ++ coerce fuel (s.drop n))

/-- Each byte outside of a valid encoding is replaced. -/
def toValidUTF8 (s : GoString) : GoString := coerce s.length s

def ValidUTF8 (s : GoString) : Prop := toValidUTF8 s = s

instance (s : GoString) : Decidable (ValidUTF8 s) :=
  inferInstanceAs (Decidable (toValidUTF8 s = s))

section

variable {a b : UInt8} {s t : GoString} {n fuel : Nat} {low high : UInt8}

theorem follows_length (h : follows n low high s = true) : n ≤ s.length := by
  induction n generalizing s low high with
  | zero => exact Nat.zero_le _
  | succ n ih =>
    cases s with
    | nil => contradiction
    | cons b s =>
      rw [follows, Bool.and_eq_true] at h
      exact Nat.succ_le_succ (ih h.2)

/-- An ASCII character ends what may follow. -/
theorem follows_append (ha : a < 0x80) (hlow : 0x80 ≤ low) (t : GoString) :
    follows n low high (s ++ a :: t) = follows n low high s := by
  induction n generalizing s low high with
  | zero => rfl
  | succ n ih =>
    cases s with
    | nil =>
      have hnot : ¬ low ≤ a := fun h => UInt8.not_le.mpr ha (UInt8.le_trans hlow h)
      rw [List.nil_append]
      show (decide (low ≤ a) && _ && _) = false
      rw [decide_eq_false hnot]
      rfl
    | cons b s =>
      rw [List.cons_append, follows, follows, ih (UInt8.le_refl _)]

theorem leadByte_low {x : Nat × UInt8 × UInt8} (h : leadByte b = some x) : 0x80 ≤ x.2.1 := by
  rw [leadByte] at h
  repeat
    split at h
    · cases h
      decide
  contradiction

theorem runeLength_append (ha : a < 0x80) (b : UInt8) (s t : GoString) :
    runeLength (b :: s ++ a :: t) = runeLength (b :: s) := by
  rw [List.cons_append, runeLength, runeLength]
  split
  · rfl
  · cases h : leadByte b with
    | none => rfl
    | some x =>
      dsimp only
      rw [follows_append ha (leadByte_low h)]

theorem runeLength_le (h : runeLength (b :: s) = n + 1) : n ≤ s.length := by
  rw [runeLength] at h
  split at h
  · cases h
    exact Nat.zero_le _
  · split at h
    · contradiction
    · split at h
      · rename_i hf
        cases h
        exact follows_length hf
      · contradiction

theorem coerce_nil (fuel : Nat) : coerce fuel [] = [] := by
  cases fuel <;> rfl

theorem coerce_fuel {fuel' : Nat} (h : s.length ≤ fuel) (h' : s.length ≤ fuel') :
    coerce fuel s = coerce fuel' s := by
  induction fuel generalizing fuel' s with
  | zero =>
    obtain rfl : s = [] := List.eq_nil_of_length_eq_zero (Nat.le_zero.mp h)
    rw [coerce_nil, coerce_nil]
  | succ fuel ih =>
    cases s with
    | nil => rw [coerce_nil, coerce_nil]
    | cons b s =>
      cases fuel' with
      | zero => contradiction
      | succ fuel' =>
        rw [List.length_cons] at h h'
        rw [coerce, coerce]
        split
        · rw [ih (Nat.le_of_succ_le_succ h) (Nat.le_of_succ_le_succ h')]
        · rename_i n _
          have hdrop : (s.drop n).length ≤ s.length := by
            rw [List.length_drop]
            omega
          have hrest : coerce fuel (s.drop n) = coerce fuel' (s.drop n) := ih (by omega) (by omega)
          rw [hrest]

theorem toValidUTF8_invalid (h : runeLength (b :: s) = 0) :
    toValidUTF8 (b :: s) = replacement ++ toValidUTF8 s := by
  rw [toValidUTF8, List.length_cons, coerce, h]
  rfl

theorem toValidUTF8_rune (h : runeLength (b :: s) = n + 1) :
    toValidUTF8 (b :: s) = b :: (s.take n ++ toValidUTF8 (s.drop n)) := by
  rw [toValidUTF8, List.length_cons, coerce, h]
  dsimp only
  rw [coerce_fuel _ (Nat.le_refl (s.drop n).length)]
  · rfl
  · rw [List.length_drop]
    omega

/-- Before and behind an ASCII character the bytes are replaced independently. -/
theorem toValidUTF8_append (ha : a < 0x80) (s t : GoString) :
    toValidUTF8 (s ++ a :: t) = toValidUTF8 s ++ a :: toValidUTF8 t := by
  generalize hm : s.length = m
  induction m using Nat.strongRecOn generalizing s with
  | ind m ih =>
    cases s with
    | nil =>
      have hrune : runeLength (a :: t) = 0 + 1 := if_pos ha
      rw [List.nil_append, toValidUTF8_rune hrune]
      rfl
    | cons b s =>
      rw [List.length_cons] at hm
      have hlength := runeLength_append ha b s t
      rw [List.cons_append] at hlength ⊢
      cases hn : runeLength (b :: s) with
      | zero =>
        rw [hn] at hlength
        rw [toValidUTF8_invalid hlength, toValidUTF8_invalid hn, ih s.length (by omega) s rfl,
          List.append_assoc]
      | succ n =>
        rw [hn] at hlength
        have hle := runeLength_le hn
        have hdrop : (s.drop n).length < m := by
          rw [List.length_drop]
          omega
        rw [toValidUTF8_rune hlength, toValidUTF8_rune hn, List.take_append_of_le_length hle,
          List.drop_append_of_le_length hle, ih _ hdrop (s.drop n) rfl, List.cons_append,
          List.append_assoc]

theorem toValidUTF8_intercalate (ha : a < 0x80) (l : List GoString) :
    toValidUTF8 ([a].intercalate l) = [a].intercalate (l.map toValidUTF8) := by
  induction l with
  | nil => rfl
  | cons s l ih =>
    cases l with
    | nil => rw [List.map_singleton, List.intercalate_singleton, List.intercalate_singleton]
    | cons t l =>
      rw [List.map_cons] at ih
      rw [List.map_cons, List.map_cons, List.intercalate_cons_cons, List.intercalate_cons_cons,
        List.append_assoc, List.append_assoc, List.singleton_append, List.singleton_append,
        toValidUTF8_append ha, ih]

theorem validUTF8_nil : ValidUTF8 [] := rfl

/-- The replacement character is longer than the byte that it stands for. -/
theorem validUTF8_or_longer (s : GoString) : ValidUTF8 s ∨ s.length < (toValidUTF8 s).length := by
  generalize hm : s.length = m
  induction m using Nat.strongRecOn generalizing s with
  | ind m ih =>
    cases s with
    | nil => exact .inl rfl
    | cons b s =>
      rw [List.length_cons] at hm
      have hrest := ih s.length (by omega) s rfl
      cases hn : runeLength (b :: s) with
      | zero =>
        right
        have hle : s.length ≤ (toValidUTF8 s).length := by
          rcases hrest with heq | hlt
          · exact Nat.le_of_eq (congrArg List.length heq).symm
          · omega
        rw [toValidUTF8_invalid hn, List.length_append]
        show m < 3 + _
        omega
      | succ n =>
        have hle := runeLength_le hn
        have hlength : (s.drop n).length = s.length - n := List.length_drop
        rw [toValidUTF8_rune hn]
        rcases ih _ (by omega) (s.drop n) rfl with heq | hlt
        · left
          have heq : toValidUTF8 (s.drop n) = s.drop n := heq
          rw [ValidUTF8, toValidUTF8_rune hn, heq, List.take_append_drop]
        · right
          rw [List.length_cons, List.length_append, List.length_take]
          omega

theorem length_le_toValidUTF8 (s : GoString) : s.length ≤ (toValidUTF8 s).length := by
  rcases validUTF8_or_longer s with heq | hlt
  · exact Nat.le_of_eq (congrArg List.length heq).symm
  · exact Nat.le_of_lt hlt

theorem eq_nil_of_toValidUTF8 (h : toValidUTF8 s = []) : s = [] := by
  have hle := length_le_toValidUTF8 s
  rw [h] at hle
  exact List.eq_nil_of_length_eq_zero (Nat.le_zero.mp hle)

theorem validUTF8_intercalate (ha : a < 0x80) (l : List GoString) :
    ValidUTF8 ([a].intercalate l) ↔ ∀ s ∈ l, ValidUTF8 s := by
  constructor
  · intro h
    induction l with
    | nil => exact fun s hs => absurd hs List.not_mem_nil
    | cons s l ih =>
      cases l with
      | nil =>
        rw [List.intercalate_singleton] at h
        exact List.forall_mem_singleton.mpr h
      | cons t l =>
        rw [List.intercalate_cons_cons, List.append_assoc, List.singleton_append, ValidUTF8,
          toValidUTF8_append ha] at h
        have hs : ValidUTF8 s := by
          have hlength := congrArg List.length h
          have hrest := length_le_toValidUTF8 ([a].intercalate (t :: l))
          simp only [List.length_append, List.length_cons] at hlength
          refine (validUTF8_or_longer s).resolve_right fun hlt => ?_
          omega
        have heq : toValidUTF8 s = s := hs
        rw [heq] at h
        exact List.forall_mem_cons.mpr ⟨hs, ih (List.cons.inj (List.append_cancel_left h)).2⟩
  · intro h
    have hmap : l.map toValidUTF8 = l.map id := List.map_congr_left h
    rw [ValidUTF8, toValidUTF8_intercalate ha, hmap, List.map_id]

end

/-! ## White space -/

/-- The encodings of the characters that `unicode.IsSpace` holds for. -/
def spaces : List GoString :=
  [[0x09], [0x0A], [0x0B], [0x0C], [0x0D], [0x20], [0xC2, 0x85], [0xC2, 0xA0], [0xE1, 0x9A, 0x80],
    [0xE2, 0x80, 0x80], [0xE2, 0x80, 0x81], [0xE2, 0x80, 0x82], [0xE2, 0x80, 0x83],
    [0xE2, 0x80, 0x84], [0xE2, 0x80, 0x85], [0xE2, 0x80, 0x86], [0xE2, 0x80, 0x87],
    [0xE2, 0x80, 0x88], [0xE2, 0x80, 0x89], [0xE2, 0x80, 0x8A], [0xE2, 0x80, 0xA8],
    [0xE2, 0x80, 0xA9], [0xE2, 0x80, 0xAF], [0xE2, 0x81, 0x9F], [0xE3, 0x80, 0x80]]

def trimLeft : Nat → GoString → GoString
  | 0, s => s
  | fuel + 1, s =>
    match spaces.find? fun c => c.isPrefixOf s with
    | some c => trimLeft fuel (s.drop c.length)
    | none => s

def trimRight : Nat → GoString → GoString
  | 0, s => s
  | fuel + 1, s =>
    match spaces.find? fun c => c.isSuffixOf s with
    | some c => trimRight fuel (s.take (s.length - c.length))
    | none => s

/-- `strings.TrimSpace` -/
def trimSpace (s : GoString) : GoString := trimRight s.length (trimLeft s.length s)

theorem trimLeft_subset (fuel : Nat) (s : GoString) : trimLeft fuel s ⊆ s := by
  induction fuel generalizing s with
  | zero => exact List.Subset.refl s
  | succ fuel ih =>
    rw [trimLeft]
    split
    · rename_i c _
      exact List.Subset.trans (ih _) (List.drop_subset c.length s)
    · exact List.Subset.refl s

theorem trimRight_subset (fuel : Nat) (s : GoString) : trimRight fuel s ⊆ s := by
  induction fuel generalizing s with
  | zero => exact List.Subset.refl s
  | succ fuel ih =>
    rw [trimRight]
    split
    · exact List.Subset.trans (ih _) (List.take_subset _ s)
    · exact List.Subset.refl s

/-- Nothing new gets into a string that is trimmed. -/
theorem trimSpace_subset (s : GoString) : trimSpace s ⊆ s :=
  List.Subset.trans (trimRight_subset _ _) (trimLeft_subset _ s)

end Selebrow.Text
