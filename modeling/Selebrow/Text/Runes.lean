import Selebrow.Go

/-!
# Text as characters

`utf8` writes characters as bytes, `decodeUtf8` reads them back.  The two are inverse to each
other on bytes that are valid UTF-8, and nothing else is read.
-/

namespace Selebrow.Text

def utf8 (cs : List Char) : GoString := cs.flatMap String.utf8EncodeChar

/-- Valid UTF-8. -/
def IsUtf8 (s : GoString) : Prop := ∃ cs, s = utf8 cs

/-- The character at the front. -/
def decodeRune (s : GoString) : Option Char := (s.take 4).toByteArray.utf8DecodeChar? 0

/-- The characters of at most so many bytes. -/
def runes : Nat → GoString → Option (List Char)
  | _, [] => some []
  | 0, _ :: _ => none
  | fuel + 1, b :: s =>
    match decodeRune (b :: s) with
    | none => none
    | some c => (runes fuel ((b :: s).drop c.utf8Size)).map (c :: ·)

def decodeUtf8 (s : GoString) : Option (List Char) := runes s.length s

variable {s t : GoString} {c : Char} {cs : List Char} {fuel : Nat}

theorem utf8_cons (c : Char) (cs : List Char) : utf8 (c :: cs) = String.utf8EncodeChar c ++ utf8 cs :=
  List.flatMap_cons

theorem bytes_eq_utf8 (s : String) : bytes s = utf8 s.toList := rfl

theorem bytes_append (a b : String) : bytes (a ++ b) = bytes a ++ bytes b := by
  rw [bytes, String.toList_append, List.flatMap_append]
  rfl

/-! ## Reading what was written -/

theorem decodeRune_encode (c : Char) (s : GoString) :
    decodeRune (String.utf8EncodeChar c ++ s) = some c := by
  have hlength : (String.utf8EncodeChar c).length ≤ 4 := by
    rw [String.length_utf8EncodeChar]
    exact Char.utf8Size_le_four c
  rw [decodeRune, List.take_append, List.take_of_length_le hlength, List.toByteArray_append]
  exact ByteArray.utf8DecodeChar?_utf8EncodeChar_append

theorem encode_ne_nil (c : Char) : String.utf8EncodeChar c ≠ [] := by
  intro h
  have hlength := String.length_utf8EncodeChar c
  rw [h] at hlength
  have hpos := Char.utf8Size_pos c
  rw [← hlength] at hpos
  exact absurd hpos (Nat.lt_irrefl 0)

theorem runes_encode (fuel : Nat) (c : Char) (s : GoString) :
    runes (fuel + 1) (String.utf8EncodeChar c ++ s) = (runes fuel s).map (c :: ·) := by
  have hrune := decodeRune_encode c s
  have hdrop : (String.utf8EncodeChar c ++ s).drop c.utf8Size = s := by
    rw [← String.length_utf8EncodeChar]
    exact List.drop_left
  cases h : String.utf8EncodeChar c ++ s with
  | nil => exact absurd (List.append_eq_nil_iff.mp h).1 (encode_ne_nil c)
  | cons b t =>
    rw [h] at hrune hdrop
    rw [runes, hrune]
    dsimp only
    rw [hdrop]

theorem runes_utf8 (cs : List Char) : ∀ {fuel}, cs.length ≤ fuel → runes fuel (utf8 cs) = some cs := by
  induction cs with
  | nil =>
    intro fuel _
    cases fuel <;> rfl
  | cons c cs ih =>
    intro fuel h
    cases fuel with
    | zero => exact absurd h (Nat.not_succ_le_zero _)
    | succ fuel =>
      rw [utf8_cons, runes_encode, ih (Nat.le_of_succ_le_succ h)]
      rfl

theorem length_le_utf8 (cs : List Char) : cs.length ≤ (utf8 cs).length := by
  induction cs with
  | nil => exact Nat.le_refl 0
  | cons c cs ih =>
    have hpos := Char.utf8Size_pos c
    rw [utf8_cons, List.length_append, List.length_cons, String.length_utf8EncodeChar]
    omega

theorem decodeUtf8_utf8 (cs : List Char) : decodeUtf8 (utf8 cs) = some cs :=
  runes_utf8 cs (length_le_utf8 cs)

theorem utf8_injective {cs cs' : List Char} (h : utf8 cs = utf8 cs') : cs = cs' := by
  have hdecode := decodeUtf8_utf8 cs
  rw [h, decodeUtf8_utf8] at hdecode
  exact (Option.some.inj hdecode).symm

theorem bytes_injective {a b : String} (h : bytes a = bytes b) : a = b :=
  String.toList_inj.mp (utf8_injective h)

theorem mem_bytes {key : String} {keys : List String} (h : bytes key ∈ keys.map bytes) : key ∈ keys := by
  obtain ⟨key', hmem, heq⟩ := List.mem_map.mp h
  exact bytes_injective heq ▸ hmem

theorem nodup_bytes {keys : List String} (h : keys.Nodup) : (keys.map bytes).Nodup :=
  List.Pairwise.map bytes (fun _ _ hne heq => hne (bytes_injective heq)) h

/-! ## Writing what was read -/

theorem append_of_decodeRune (h : decodeRune s = some c) :
    s = String.utf8EncodeChar c ++ s.drop c.utf8Size := by
  obtain ⟨rest, hrest⟩ := ByteArray.exists_of_utf8DecodeChar?_eq_some h
  have hlist := congrArg (fun b => b.data.toList) hrest
  simp only [ByteArray.data_append, Array.toList_append, List.toList_data_toByteArray] at hlist
  have hs : s = String.utf8EncodeChar c ++ (rest.data.toList ++ s.drop 4) := by
    rw [← List.append_assoc, ← hlist, List.take_append_drop]
  rw [hs]
  congr 1
  rw [← String.length_utf8EncodeChar, List.drop_left]

theorem utf8_of_runes : ∀ {fuel : Nat} {s : GoString} {cs : List Char},
    runes fuel s = some cs → utf8 cs = s := by
  intro fuel
  induction fuel with
  | zero =>
    intro s cs h
    cases s with
    | nil =>
      cases h
      rfl
    | cons b s => contradiction
  | succ fuel ih =>
    intro s cs h
    cases s with
    | nil =>
      cases h
      rfl
    | cons b s =>
      rw [runes] at h
      cases hc : decodeRune (b :: s) with
      | none =>
        rw [hc] at h
        contradiction
      | some c =>
        rw [hc] at h
        obtain ⟨rest, hrest, rfl⟩ := Option.map_eq_some_iff.mp h
        rw [utf8_cons, ih hrest]
        exact (append_of_decodeRune hc).symm

theorem utf8_of_decodeUtf8 (h : decodeUtf8 s = some cs) : utf8 cs = s := utf8_of_runes h

/-! ## ASCII -/

theorem byte_toNat {n : Nat} (h : n < 256) : (UInt8.ofNat n).toNat = n := by
  rw [UInt8.toNat_ofNat']
  exact Nat.mod_eq_of_lt h

theorem utf8_ascii (h : ∀ b ∈ s, b.toNat < 128) : utf8 (s.map fun b => Char.ofNat b.toNat) = s := by
  have hall : ∀ n < 128, String.utf8EncodeChar (Char.ofNat n) = [UInt8.ofNat n] := by decide
  induction s with
  | nil => rfl
  | cons b s ih =>
    rw [List.map_cons, utf8_cons, hall _ (h b List.mem_cons_self), UInt8.ofNat_toNat,
      ih fun b' hb => h b' (List.mem_cons_of_mem b hb)]
    rfl

/-- A byte below `0x80` is a character of its own. -/
theorem eq_of_mem_encode {b : UInt8} (hb : b.toNat < 128) (h : b ∈ String.utf8EncodeChar c) :
    c.toNat = b.toNat := by
  have hhigh : ∀ {n k : Nat}, n + k < 256 → 128 ≤ k → b ≠ UInt8.ofNat (n + k) := by
    rintro n k hlt hk rfl
    rw [byte_toNat hlt] at hb
    omega
  rw [String.utf8EncodeChar] at h
  split at h
  · rename_i hsmall
    rw [List.mem_singleton] at h
    rw [h, byte_toNat (by omega)]
    rfl
  · exfalso
    split at h
    · simp only [List.mem_cons, List.not_mem_nil, or_false] at h
      rcases h with h | h
      · exact hhigh (by omega) (by omega) h
      · exact hhigh (by omega) (by omega) h
    · split at h
      · simp only [List.mem_cons, List.not_mem_nil, or_false] at h
        rcases h with h | h | h
        · exact hhigh (by omega) (by omega) h
        · exact hhigh (by omega) (by omega) h
        · exact hhigh (by omega) (by omega) h
      · simp only [List.mem_cons, List.not_mem_nil, or_false] at h
        rcases h with h | h | h | h
        · exact hhigh (by omega) (by omega) h
        · exact hhigh (by omega) (by omega) h
        · exact hhigh (by omega) (by omega) h
        · exact hhigh (by omega) (by omega) h

theorem mem_utf8 {b : UInt8} (hb : b.toNat < 128) (h : b ∈ utf8 cs) : ∃ c ∈ cs, c.toNat = b.toNat := by
  obtain ⟨c, hc, hmem⟩ := List.mem_flatMap.mp h
  exact ⟨c, hc, eq_of_mem_encode hb hmem⟩

end Selebrow.Text
