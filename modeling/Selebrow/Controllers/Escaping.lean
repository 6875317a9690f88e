import Selebrow.Controllers.Proxy
import Selebrow.Net.Url

/-!
# The escaping of paths

`net/url` keeps the path of a URL decoded.  The text that it was read from is kept beside
it only when it is not the text that the path is escaped to.  A path that is put together
from decoded parts is escaped anew when it is sent.
-/

namespace Selebrow.Controllers

open Selebrow.Path

/-- `url.shouldEscape` for the bytes of a path -/
def shouldEscape (b : UInt8) : Bool :=
  !(Net.isLetter b || Net.isDigit b || (bytes "-_.~$&+,/:;=@").contains b)

def upperHex (n : UInt8) : UInt8 := if n < 10 then 48 + n else 55 + n

def escapeByte (b : UInt8) : GoString :=
  if shouldEscape b then [37, upperHex (b / 16), upperHex (b % 16)] else [b]

/-- `url.escape` of a path -/
def escape (s : GoString) : GoString := s.flatMap escapeByte

def validEncoded (s : GoString) : Bool :=
  s.all fun b => (bytes "!$&'()*+,;=:@[]%").contains b || !shouldEscape b

/-- `URL.EscapedPath` -/
def escapedPath (u : URL) : GoString :=
  if u.rawPath ≠ [] ∧ validEncoded u.rawPath ∧ unescape u.rawPath = some u.path then u.rawPath
  else if u.path = bytes "*" then bytes "*"
  else escape u.path

/-- `URL.setPath`, the path and the raw path of a URL that is read. -/
def setPath (p : GoString) : Option (GoString × GoString) :=
  (unescape p).map fun path => (path, if p = escape path then [] else p)

/-! ## Reading what was written -/

theorem upperHex_lt {n : UInt8} (h : n < 10) : upperHex n = 48 + n := if_pos h

theorem upperHex_ge {n : UInt8} (h : ¬ n < 10) : upperHex n = 55 + n := if_neg h

theorem fromHexChar_upperHex {n : UInt8} (h : n < 16) : fromHexChar (upperHex n) = some n := by
  by_cases hn : n < 10
  · rw [upperHex_lt hn, fromHexChar, if_pos]
    · congr 1
      grind
    · constructor <;> grind
  · rw [upperHex_ge hn, fromHexChar, if_neg, if_neg, if_pos]
    · congr 1
      grind
    · constructor <;> grind
    · rintro ⟨h1, h2⟩
      grind
    · rintro ⟨h1, h2⟩
      grind

theorem unescape_cons {b : UInt8} (h : b ≠ 37) (rest : GoString) :
    unescape (b :: rest) = (unescape rest).map (b :: ·) := by
  have hmem : 37 ∉ [b] := by
    rw [List.mem_singleton]
    exact Ne.symm h
  exact unescape_append hmem

theorem unescape_escapeByte_append (b : UInt8) (rest : GoString) :
    unescape (escapeByte b ++ rest) = (unescape rest).map (b :: ·) := by
  by_cases h : shouldEscape b = true
  · have hhi : b / 16 < 16 := by grind
    have hlo : b % 16 < 16 := by grind
    have hbyte : 16 * (b / 16) + b % 16 = b := by grind
    rw [escapeByte, if_pos h]
    show unescape (37 :: upperHex (b / 16) :: upperHex (b % 16) :: rest) = _
    rw [unescape, fromHexChar_upperHex hhi, fromHexChar_upperHex hlo]
    show (do return (16 * (b / 16) + b % 16) :: (← unescape rest)) = _
    rw [hbyte]
    cases unescape rest <;> rfl
  · have hne : b ≠ 37 := by
      rintro rfl
      exact h (by decide)
    rw [escapeByte, if_neg h, List.singleton_append, unescape_cons hne]

theorem unescape_escape (s : GoString) : unescape (escape s) = some s := by
  induction s with
  | nil => rfl
  | cons b s ih =>
    rw [escape, List.flatMap_cons, unescape_escapeByte_append]
    show (unescape (escape s)).map (b :: ·) = _
    rw [ih]
    rfl

theorem escape_injective {a b : GoString} (h : escape a = escape b) : a = b := by
  have hsome := unescape_escape a
  rw [h, unescape_escape] at hsome
  exact (Option.some.inj hsome).symm

theorem escape_append (a b : GoString) : escape (a ++ b) = escape a ++ escape b := List.flatMap_append

/-- The escaped path is read back as the path. -/
theorem unescape_escapedPath (u : URL) : unescape (escapedPath u) = some u.path := by
  rw [escapedPath]
  split
  · rename_i h
    exact h.2.2
  · split
    · rename_i h
      rw [h]
      decide
    · exact unescape_escape u.path

/-! ## Slashes -/

theorem slash_notMem_escapeByte {b : UInt8} (h : b ≠ slash) : slash ∉ escapeByte b := by
  have hhex : ∀ n : UInt8, n < 16 → slash ≠ upperHex n := by
    intro n hn heq
    have hsome := fromHexChar_upperHex hn
    rw [← heq] at hsome
    contradiction
  rw [escapeByte]
  split
  · have hhi : b / 16 < 16 := by grind
    have hlo : b % 16 < 16 := by grind
    rw [List.mem_cons, List.mem_cons, List.mem_singleton, not_or, not_or]
    exact ⟨by decide, hhex _ hhi, hhex _ hlo⟩
  · rw [List.mem_singleton]
    exact Ne.symm h

theorem escapeByte_slash : escapeByte slash = [slash] := by decide

theorem escape_slash_cons (s : GoString) : escape (slash :: s) = slash :: escape s := by
  rw [escape, List.flatMap_cons, escapeByte_slash]
  rfl

theorem slash_mem_escape {s : GoString} : slash ∈ escape s ↔ slash ∈ s := by
  rw [escape, List.mem_flatMap]
  constructor
  · rintro ⟨b, hb, hmem⟩
    by_cases h : b = slash
    · rw [← h]
      exact hb
    · exact absurd hmem (slash_notMem_escapeByte h)
  · intro h
    refine ⟨slash, h, ?_⟩
    rw [escapeByte_slash]
    exact List.mem_singleton.mpr rfl

/-- The slashes of an escaped string are those of the string. -/
theorem escape_eq_append {s a b : GoString} (h : escape s = a ++ slash :: b) :
    ∃ x y, s = x ++ slash :: y ∧ escape x = a ∧ escape y = b := by
  induction s generalizing a with
  | nil =>
    have hnil := List.append_eq_nil_iff.mp h.symm
    exact absurd hnil.2 (List.cons_ne_nil _ _)
  | cons c s ih =>
    have hcons : escapeByte c ++ escape s = a ++ slash :: b := h
    rcases List.append_eq_append_iff.mp hcons with ⟨a', ha, hs⟩ | ⟨c', hc, hs⟩
    · obtain ⟨x, y, hxy, hx, hy⟩ := ih hs
      refine ⟨c :: x, y, by rw [hxy, List.cons_append], ?_, hy⟩
      rw [ha, ← hx]
      rfl
    · by_cases hslash : c = slash
      · subst hslash
        rw [escapeByte_slash] at hc
        cases a with
        | nil =>
          rw [List.nil_append] at hc
          rw [← hc] at hs
          exact ⟨[], s, rfl, rfl, (List.cons.inj hs).2.symm⟩
        | cons d a =>
          have hnil := List.append_eq_nil_iff.mp (List.cons.inj hc).2.symm
          have hd : slash = d := (List.cons.inj hc).1
          rw [hnil.2, List.nil_append] at hs
          obtain ⟨x, y, hxy, hx, hy⟩ := ih (a := []) hs.symm
          refine ⟨slash :: x, y, by rw [hxy, List.cons_append], ?_, hy⟩
          rw [escape_slash_cons, hx, hnil.1, hd]
      · cases c' with
        | nil =>
          rw [List.append_nil] at hc
          obtain ⟨x, y, hxy, hx, hy⟩ := ih (a := []) hs.symm
          refine ⟨c :: x, y, by rw [hxy, List.cons_append], ?_, hy⟩
          show escapeByte c ++ escape x = a
          rw [hx, List.append_nil, hc]
        | cons d c' =>
          have hd : slash = d := (List.cons.inj hs).1
          have hmem : slash ∈ escapeByte c := by
            rw [hc, hd]
            exact List.mem_append_right _ List.mem_cons_self
          exact absurd hmem (slash_notMem_escapeByte hslash)

theorem escape_intercalate (segs : List GoString) :
    escape ([slash].intercalate segs) = [slash].intercalate (segs.map escape) := by
  induction segs with
  | nil => rfl
  | cons s segs ih =>
    cases segs with
    | nil => simp [List.intercalate]
    | cons s' segs =>
      rw [List.intercalate_cons_cons, escape_append, escape_append, ih, List.map_cons, List.map_cons,
        List.map_cons, List.intercalate_cons_cons]
      rfl

/-- The segments of an escaped path are the escaped segments. -/
theorem splitOn_escape (s : GoString) :
    (escape s).splitOn slash = (s.splitOn slash).map escape := by
  have hsegs : ∀ t ∈ (s.splitOn slash).map escape, slash ∉ t := by
    intro t ht
    obtain ⟨r, hr, rfl⟩ := List.mem_map.mp ht
    rw [slash_mem_escape]
    exact notMem_splitOn hr
  have hne : (s.splitOn slash).map escape ≠ [] := by
    rw [Ne, List.map_eq_nil_iff]
    exact List.splitOn_ne_nil slash s
  have hs : [slash].intercalate (s.splitOn slash) = s := List.intercalate_splitOn slash
  have hescape := escape_intercalate (s.splitOn slash)
  rw [hs] at hescape
  rw [hescape, List.splitOn_intercalate slash hsegs hne]

theorem isName_of_escape {s : GoString} (h : IsName (escape s)) : IsName s where
  ne_nil := by
    rintro rfl
    exact h.ne_nil rfl
  ne_dot := by
    rintro rfl
    exact h.ne_dot (by decide)
  ne_dotDot := by
    rintro rfl
    exact h.ne_dotDot (by decide)
  no_slash := fun hmem => h.no_slash (slash_mem_escape.mpr hmem)

end Selebrow.Controllers
