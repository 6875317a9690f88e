import Mathlib.Data.List.Sort
import Selebrow.GoMap
import Selebrow.Text.Hex

/-!
# Query strings

`url.Values.Encode` writes the keys in order and the values of a key in their own order;
`url.ParseQuery`, as `URL.Query` uses it, drops what it cannot read, and reads nothing if there
are too many settings.  What the one wrote the other reads, for all keys and values.
-/

namespace Selebrow.Net.Query

open Text

def isUnreserved (b : UInt8) : Bool :=
  (97 ≤ b && b ≤ 122) || (65 ≤ b && b ≤ 90) || (48 ≤ b && b ≤ 57) || b == 45 || b == 95 ||
    b == 46 || b == 126

def queryEscapeByte (b : UInt8) : GoString :=
  if b = 32 then [43]
  else if isUnreserved b then [b]
  else [37, hexDigit 65 (b / 16), hexDigit 65 (b % 16)]

/-- `url.QueryEscape` -/
def queryEscape (s : GoString) : GoString := s.flatMap queryEscapeByte

/-- `url.QueryUnescape` -/
def queryUnescape : GoString → Option GoString
  | [] => some []
  | b :: s =>
    if b = 37 then
      match s with
      | h :: l :: s =>
        (unhex h).bind fun h => (unhex l).bind fun l => (queryUnescape s).map ((h * 16 + l) :: ·)
      | _ => none
    else (queryUnescape s).map ((if b = 43 then 32 else b) :: ·)

abbrev Pairs := List (GoString × GoString)

/-- One setting.  Without `=` the value is empty, and a semicolon is not accepted. -/
def parsePair (setting : GoString) : Option (GoString × GoString) :=
  if 59 ∈ setting ∨ setting = [] then none
  else do
    let key ← queryUnescape (splitAt 61 setting).1
    let value ← queryUnescape ((splitAt 61 setting).2.getD [])
    return (key, value)

def readPairs (query : GoString) : Pairs := (query.splitOn 38).filterMap parsePair

def maxQueryParams : Nat := 10000

/-- `URL.Query` -/
def parseQuery (query : GoString) : Pairs :=
  if query.count 38 + 1 ≤ maxQueryParams then readPairs query else []

/-- `values[key]` -/
def valuesOf (pairs : Pairs) (key : GoString) : List GoString :=
  (pairs.filter fun p => p.1 = key).map Prod.snd

def writePair (p : GoString × GoString) : GoString := queryEscape p.1 ++ 61 :: queryEscape p.2

def writePairs (pairs : Pairs) : GoString := [38].intercalate (pairs.map writePair)

abbrev Values := GoMap GoString (List GoString)

def Values.pairs (m : Values) : Pairs :=
  (m.keys.insertionSort (· ≤ ·)).flatMap fun k => ((m.lookup k).getD []).map fun v => (k, v)

/-- `url.Values.Encode` -/
def Values.encode (m : Values) : GoString := writePairs m.pairs

/-! ## Escaping -/

section

variable {b : UInt8} {s t : GoString}

/-- What escaping leaves of a byte: it can be read, and it is no separator. -/
theorem mem_queryEscapeByte {c : UInt8} (h : c ∈ queryEscapeByte b) :
    c = 43 ∨ c = 37 ∨ isUnreserved c = true := by
  rw [queryEscapeByte] at h
  split at h
  · exact .inl (List.mem_singleton.mp h)
  · split at h
    · rename_i hplain
      rw [List.mem_singleton.mp h]
      exact .inr (.inr hplain)
    · have hhigh : isUnreserved (hexDigit 65 (b / 16)) = true :=
        forall_lt_sixteen (P := fun n => isUnreserved (hexDigit 65 n) = true) (by decide) (high_lt b)
      have hlow : isUnreserved (hexDigit 65 (b % 16)) = true :=
        forall_lt_sixteen (P := fun n => isUnreserved (hexDigit 65 n) = true) (by decide) (low_lt b)
      simp only [List.mem_cons, List.not_mem_nil, or_false] at h
      rcases h with rfl | rfl | rfl
      · exact .inr (.inl rfl)
      · exact .inr (.inr hhigh)
      · exact .inr (.inr hlow)

/-- `&`, `;` and `=` are escaped. -/
theorem notMem_queryEscape {c : UInt8} (hc : isUnreserved c = false) (hplus : c ≠ 43)
    (hpercent : c ≠ 37) (s : GoString) : c ∉ queryEscape s := by
  intro h
  obtain ⟨b, _, hb⟩ := List.mem_flatMap.mp h
  rcases mem_queryEscapeByte hb with h43 | h37 | hplain
  · exact hplus h43
  · exact hpercent h37
  · rw [hc] at hplain
    contradiction

theorem queryUnescape_cons (h : b ≠ 37) (s : GoString) :
    queryUnescape (b :: s) = (queryUnescape s).map ((if b = 43 then 32 else b) :: ·) := by
  rw [queryUnescape.eq_def]
  dsimp only
  rw [if_neg h]

theorem queryUnescape_escapeByte (b : UInt8) (s : GoString) :
    queryUnescape (queryEscapeByte b ++ s) = (queryUnescape s).map (b :: ·) := by
  rw [queryEscapeByte]
  split
  · rename_i hspace
    rw [List.singleton_append, queryUnescape_cons (by decide), if_pos rfl, hspace]
  · split
    · rename_i hplain
      have hne : ∀ c : UInt8, isUnreserved c = false → b ≠ c := by
        intro c hc heq
        rw [heq, hc] at hplain
        contradiction
      rw [List.singleton_append, queryUnescape_cons (hne 37 (by decide)),
        if_neg (hne 43 (by decide))]
    · show queryUnescape (37 :: hexDigit 65 (b / 16) :: hexDigit 65 (b % 16) :: s) = _
      rw [queryUnescape, if_pos rfl, unhex_upper (high_lt b), unhex_upper (low_lt b), Option.bind_some, Option.bind_some,
        byte_of_halves]

theorem queryUnescape_escape (s : GoString) : queryUnescape (queryEscape s) = some s := by
  induction s with
  | nil => rw [queryEscape, List.flatMap_nil, queryUnescape]
  | cons b s ih =>
    show queryUnescape (queryEscapeByte b ++ queryEscape s) = _
    rw [queryUnescape_escapeByte, ih]
    rfl

end

/-! ## Settings -/

theorem parsePair_write (p : GoString × GoString) : parsePair (writePair p) = some p := by
  have hequals : 61 ∉ queryEscape p.1 := notMem_queryEscape (by decide) (by decide) (by decide) p.1
  have hsemicolon : 59 ∉ writePair p := by
    intro h
    rw [writePair, List.mem_append, List.mem_cons] at h
    rcases h with h | h | h
    · exact notMem_queryEscape (by decide) (by decide) (by decide) p.1 h
    · exact absurd h (by decide)
    · exact notMem_queryEscape (by decide) (by decide) (by decide) p.2 h
  have hne : writePair p ≠ [] := by
    rw [writePair]
    exact List.append_ne_nil_of_right_ne_nil _ (List.cons_ne_nil _ _)
  have hnot : ¬ (59 ∈ writePair p ∨ writePair p = []) := by
    rintro (h | h)
    · exact hsemicolon h
    · exact hne h
  rw [parsePair, if_neg hnot, writePair, splitAt_append hequals]
  show (do
    let key ← queryUnescape (queryEscape p.1)
    let value ← queryUnescape (queryEscape p.2)
    return (key, value)) = some p
  rw [queryUnescape_escape, queryUnescape_escape]
  rfl

theorem readPairs_writePairs (pairs : Pairs) : readPairs (writePairs pairs) = pairs := by
  cases pairs with
  | nil => rfl
  | cons p pairs =>
    have hsplit : (writePairs (p :: pairs)).splitOn 38 = (p :: pairs).map writePair := by
      apply List.splitOn_intercalate
      · intro setting h hmem
        obtain ⟨q, _, rfl⟩ := List.mem_map.mp h
        rw [writePair, List.mem_append, List.mem_cons] at hmem
        rcases hmem with hmem | hmem | hmem
        · exact notMem_queryEscape (by decide) (by decide) (by decide) q.1 hmem
        · exact absurd hmem (by decide)
        · exact notMem_queryEscape (by decide) (by decide) (by decide) q.2 hmem
      · exact List.cons_ne_nil _ _
    rw [readPairs, hsplit, List.filterMap_map]
    have hsome : (parsePair ∘ writePair) = some := funext parsePair_write
    rw [hsome, List.filterMap_some]

/-! ## Values -/

theorem valuesOf_append (l m : Pairs) (k : GoString) :
    valuesOf (l ++ m) k = valuesOf l k ++ valuesOf m k := by
  rw [valuesOf, List.filter_append, List.map_append]
  rfl

theorem valuesOf_key (k k' : GoString) (vs : List GoString) :
    valuesOf (vs.map fun v => (k', v)) k = if k' = k then vs else [] := by
  rw [valuesOf, List.filter_map, List.map_map]
  split
  · rename_i h
    rw [List.filter_eq_self.mpr (by
      intro v _
      exact decide_eq_true h)]
    exact List.map_id vs
  · rename_i h
    rw [List.filter_eq_nil_iff.mpr (by
      intro v _ hv
      exact h (of_decide_eq_true hv))]
    rfl

theorem valuesOf_keys {keys : List GoString} (hkeys : keys.Nodup) (f : GoString → List GoString)
    (k : GoString) : valuesOf (keys.flatMap fun k => (f k).map fun v => (k, v)) k =
      if k ∈ keys then f k else [] := by
  induction keys with
  | nil => rfl
  | cons k' keys ih =>
    obtain ⟨hnot, hkeys⟩ := List.nodup_cons.mp hkeys
    rw [List.flatMap_cons, valuesOf_append, valuesOf_key, ih hkeys]
    by_cases hk : k' = k
    · rw [hk] at hnot ⊢
      rw [if_pos rfl, if_neg hnot, if_pos List.mem_cons_self, List.append_nil]
    · rw [if_neg hk, List.nil_append]
      by_cases hmem : k ∈ keys
      · rw [if_pos hmem, if_pos (List.mem_cons_of_mem k' hmem)]
      · rw [if_neg hmem, if_neg]
        intro h
        rcases List.mem_cons.mp h with rfl | h
        · exact hk rfl
        · exact hmem h

/-- The values of every key are read back, in their order. -/
theorem valuesOf_encode (m : Values) (k : GoString) :
    valuesOf (readPairs m.encode) k = (m.lookup k).getD [] := by
  have hperm := List.perm_insertionSort (· ≤ ·) m.keys
  rw [Values.encode, readPairs_writePairs, Values.pairs,
    valuesOf_keys (hperm.nodup_iff.mpr m.nodup) (fun k => (m.lookup k).getD [])]
  split
  · rfl
  · rename_i hk
    rw [hperm.mem_iff, GoMap.mem_keys_iff] at hk
    cases hl : m.lookup k with
    | none => rfl
    | some vs =>
      rw [hl] at hk
      exact absurd rfl hk

/-- No key is read that was not written with a value. -/
theorem key_of_mem {m : Values} {p : GoString × GoString} (h : p ∈ readPairs m.encode) :
    ∃ vs, m.lookup p.1 = some vs ∧ p.2 ∈ vs := by
  rw [Values.encode, readPairs_writePairs, Values.pairs] at h
  obtain ⟨k, _, hp⟩ := List.mem_flatMap.mp h
  obtain ⟨v, hv, rfl⟩ := List.mem_map.mp hp
  cases hl : m.lookup k with
  | none =>
    rw [hl] at hv
    contradiction
  | some vs =>
    rw [hl] at hv
    exact ⟨vs, rfl, hv⟩

end Selebrow.Net.Query
