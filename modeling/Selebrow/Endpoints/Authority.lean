import Selebrow.Controllers.Escaping
import Selebrow.Json.RoundTrip
import Selebrow.Net.HostPort

/-!
# The host of a URL that is put together

The URL of a browser is the text `http://<host>:<port><path>`, parsed.  What the parser
takes for the host may reach into the path, when that does not begin with a slash.
-/

namespace Selebrow.Endpoints

open Net Controllers

/-- What is read as the authority behind `http://`. -/
def authority (s : GoString) : GoString := (splitAt 47 (splitAt 63 (splitAt 35 s).1).1).1

/-- The part of an authority behind the user. -/
def behindUser (a : GoString) : GoString :=
  match splitLast 64 a with
  | none => a
  | some (_, host) => host

/-- The host of an authority is what is behind the user, with its escapes decoded. -/
def ReadsHost (g : Grammar) : Prop :=
  ∀ a host, g.parseAuthority (bytes "http") a = .ok host → unescape (behindUser a) = some host

/-- A host name or an address, as text.  A percent sign stands before the zone of an address
with colons. -/
structure HostText (s : GoString) : Prop where
  unbracketed : HostPort.Unbracketed s
  slash : 47 ∉ s
  query : 63 ∉ s
  fragment : 35 ∉ s
  user : 64 ∉ s
  zone : 37 ∈ s → 58 ∈ s ∧ s.head? ≠ some 37

instance (s : GoString) : Decidable (HostText s) :=
  decidable_of_iff
    ((91 ∉ s ∧ 93 ∉ s) ∧ 47 ∉ s ∧ 63 ∉ s ∧ 35 ∉ s ∧ 64 ∉ s ∧ (37 ∈ s → 58 ∈ s ∧ s.head? ≠ some 37))
    ⟨fun h => ⟨⟨h.1.1, h.1.2⟩, h.2.1, h.2.2.1, h.2.2.2.1, h.2.2.2.2.1, h.2.2.2.2.2⟩,
      fun h => ⟨⟨h.unbracketed.1, h.unbracketed.2⟩, h.slash, h.query, h.fragment, h.user, h.zone⟩⟩

variable {g : Grammar} {s host port path : GoString} {u : Net.URL}

/-! ## The text of a port -/

def portText (p : Int) : GoString := bytes (toString p)

theorem mem_portText {p : Int} {b : UInt8} (h : b ∈ portText p) : b = 45 ∨ 48 ≤ b ∧ b ≤ 57 := by
  cases p with
  | ofNat n => exact .inr (Json.allDigits_toString n b h)
  | negSucc n =>
    have htext : portText (.negSucc n) = 45 :: bytes (toString (n + 1)) := by
      show bytes ("-" ++ toString (n + 1)) = _
      rw [bytes, String.toList_append, List.flatMap_append]
      rfl
    rw [htext] at h
    rcases List.mem_cons.mp h with h | h
    · exact .inl h
    · exact .inr (Json.allDigits_toString _ b h)

theorem notMem_portText (p : Int) {b : UInt8} (hb : ¬ (b = 45 ∨ 48 ≤ b ∧ b ≤ 57)) :
    b ∉ portText p := by
  intro hmem
  exact hb (mem_portText hmem)

theorem colon_notMem_portText (p : Int) : 58 ∉ portText p := notMem_portText p (by decide)

theorem unbracketed_portText (p : Int) : HostPort.Unbracketed (portText p) :=
  ⟨notMem_portText p (by decide), notMem_portText p (by decide)⟩

/-! ## The authority -/

/-- The authority of a text that begins with a host and a port. -/
theorem authority_append {pre : GoString} (hslash : 47 ∉ pre) (hquery : 63 ∉ pre)
    (hfragment : 35 ∉ pre) (path : GoString) :
    authority (pre ++ path) = pre ++ authority path := by
  rw [authority, authority, splitAt_append_left hfragment, splitAt_append_left hquery,
    splitAt_append_left hslash]

theorem parseAuthority_of_parseURL (h : parseURL g (bytes "http://" ++ s) = .ok u) :
    g.parseAuthority (bytes "http") (authority s) = .ok u.host := by
  have hplain := parsePlain_of_parseURL h
  rw [splitAt_append_left (by decide)] at hplain
  have hrest := parsePlain_slashes (bytes "http") rfl rfl hplain
  generalize hq : (splitAt 63 (splitAt 35 s).1).2.getD [] = rawQuery at hrest
  generalize hr : (splitAt 63 (splitAt 35 s).1).1 = rest at hrest
  have hslash : (bytes "/").isPrefixOf (bytes "//" ++ rest) = true := rfl
  have hauthority : (bytes "http" ≠ [] ∨ !(bytes "///").isPrefixOf (bytes "//" ++ rest)) ∧
      (bytes "//").isPrefixOf (bytes "//" ++ rest) := ⟨.inl (by decide), rfl⟩
  have hdrop : (bytes "//" ++ rest).drop 2 = rest := rfl
  rw [parseRest, if_pos hslash, if_pos hauthority, hdrop] at hrest
  rw [authority, hr]
  obtain ⟨host, hhost, hpath⟩ := ok_of_bind hrest
  obtain ⟨_, _, hu⟩ := ok_of_bind hpath
  cases hu
  exact hhost

/-! ## The host -/

theorem behindUser_of_notMem (h : 64 ∉ s) : behindUser s = s := by
  cases hsplit : splitLast 64 s with
  | none => rw [behindUser, hsplit]
  | some e =>
    have hmem : 64 ∈ s := by
      rw [splitLast_eq_some hsplit]
      exact List.mem_append_right _ List.mem_cons_self
    exact absurd hmem h

theorem behindUser_append (pre : GoString) {post : GoString} (h : 64 ∉ post) :
    behindUser (pre ++ 64 :: post) = post := by
  rw [behindUser, splitLast_append h]

theorem exists_last {b : UInt8} (h : b ∈ s) : ∃ pre post, s = pre ++ b :: post ∧ b ∉ post := by
  cases hsplit : splitLast b s with
  | none => exact absurd h (HostPort.notMem_of_splitLast_eq_none hsplit)
  | some e => exact ⟨e.1, e.2, splitLast_eq_some hsplit, HostPort.notMem_of_splitLast hsplit⟩

theorem unescape_eq_nil (h : unescape s = some []) : s = [] := by
  by_contra hne
  rw [unescape.eq_def] at h
  split at h
  · exact hne rfl
  · rename_i a b rest
    cases hhi : fromHexChar a with
    | none => simp [hhi] at h
    | some hi =>
      cases hlo : fromHexChar b with
      | none => simp [hhi, hlo] at h
      | some lo => cases hrest : unescape rest <;> simp [hhi, hlo, hrest] at h
  · contradiction
  · simp at h

/-- The path of the entry leaves the authority alone.  Otherwise it takes its place, behind
an `@`, with one that names the same host and port. -/
def PathFits (host port path : GoString) : Prop :=
  authority path = [] ∧ 58 ∉ host ∨
    ∃ user rest h, authority path = user ++ 64 :: rest ∧ 64 ∉ rest ∧ unescape rest = some h ∧
      HostPort.splitHostPort h = .ok (host, port)

namespace HostText

theorem notMem_plain {b : UInt8} (hmem : b ∉ host) (hcolon : b ≠ 58)
    (hb : ¬ (b = 45 ∨ 48 ≤ b ∧ b ≤ 57)) (p : Int) : b ∉ HostPort.plain host (portText p) := by
  intro h
  rcases List.mem_append.mp h with h | h
  · exact hmem h
  · rcases List.mem_cons.mp h with h | h
    · exact hcolon h
    · exact notMem_portText p hb h

theorem percent_notMem_plain (hhost : HostText host) (hcolon : 58 ∉ host) (p : Int) :
    37 ∉ HostPort.plain host (portText p) := by
  apply notMem_plain _ (by decide) (by decide)
  intro hmem
  exact hcolon (hhost.zone hmem).1

/-- The text begins with neither a bracket nor an escape. -/
theorem exists_cons_plain (hhost : HostText host) (port : GoString) :
    ∃ b rest, HostPort.plain host port = b :: rest ∧ b ≠ 91 ∧ b ≠ 37 := by
  cases host with
  | nil => exact ⟨58, port, rfl, by decide, by decide⟩
  | cons b rest =>
    refine ⟨b, rest ++ 58 :: port, rfl, ?_, ?_⟩
    · rintro rfl
      exact hhost.unbracketed.opening List.mem_cons_self
    · rintro rfl
      exact (hhost.zone List.mem_cons_self).2 rfl

end HostText

/-- Without a user, what is read names the host and the port exactly when the path is apart and
the host has no colon. -/
theorem splits_iff_of_notMem (hhost : HostText host) {p : Int} {h : GoString}
    (hread : unescape (HostPort.plain host (portText p) ++ authority path) = some h) :
    HostPort.splitHostPort h = .ok (host, portText p) ↔ authority path = [] ∧ 58 ∉ host := by
  constructor
  · intro hsplit
    obtain ⟨_, _, _, hform⟩ := HostPort.eq_of_splitHostPort hsplit
    rcases hform with ⟨hcolon, hform⟩ | hform
    · rw [unescape_append (hhost.percent_notMem_plain hcolon p), hform] at hread
      obtain ⟨rest, hrest, happend⟩ := Option.map_eq_some_iff.mp hread
      have hnil : rest = [] := by
        have hself : HostPort.plain host (portText p) ++ rest = HostPort.plain host (portText p) :=
          happend
        simpa using hself
      rw [hnil] at hrest
      exact ⟨unescape_eq_nil hrest, hcolon⟩
    · obtain ⟨b, rest, hb, hopening, hpercent⟩ := hhost.exists_cons_plain (portText p)
      rw [hb, List.cons_append, unescape_cons hpercent, hform] at hread
      obtain ⟨_, _, hcons⟩ := Option.map_eq_some_iff.mp hread
      exact absurd (List.cons.inj hcons).1 hopening
  · rintro ⟨hnil, hcolon⟩
    have hself : unescape (HostPort.plain host (portText p)) =
        some (HostPort.plain host (portText p)) := by
      have happend : unescape (HostPort.plain host (portText p) ++ []) = _ :=
        unescape_append (hhost.percent_notMem_plain hcolon p)
      rw [List.append_nil] at happend
      rw [happend]
      simp [unescape]
    rw [hnil, List.append_nil, hself] at hread
    cases hread
    exact HostPort.splitHostPort_plain hhost.unbracketed (unbracketed_portText p) hcolon
      (colon_notMem_portText p)

/-- The URL names the host and the port that its text was put together from exactly when the
path fits. -/
theorem splits_iff (hauth : ReadsHost g) (hhost : HostText host) {p : Int}
    (h : parseURL g (bytes "http://" ++ (HostPort.plain host (portText p) ++ path)) = .ok u) :
    HostPort.splitHostPort u.host = .ok (host, portText p) ↔ PathFits host (portText p) path := by
  have hread := hauth _ _ (parseAuthority_of_parseURL h)
  rw [authority_append (HostText.notMem_plain hhost.slash (by decide) (by decide) p)
    (HostText.notMem_plain hhost.query (by decide) (by decide) p)
    (HostText.notMem_plain hhost.fragment (by decide) (by decide) p)] at hread
  by_cases hat : 64 ∈ authority path
  · obtain ⟨user, rest, hparts, hlast⟩ := exists_last hat
    rw [hparts, ← List.append_assoc, behindUser_append _ hlast] at hread
    constructor
    · intro hsplit
      exact .inr ⟨user, rest, u.host, hparts, hlast, hread, hsplit⟩
    · rintro (⟨hnil, _⟩ | ⟨user', rest', host', hparts', hlast', hread', hsplit⟩)
      · rw [hnil] at hat
        contradiction
      · have hsame : rest' = rest := by
          have hbehind := behindUser_append user hlast
          rw [← hparts, hparts', behindUser_append user' hlast'] at hbehind
          exact hbehind
        rw [hsame, hread] at hread'
        cases hread'
        exact hsplit
  · have hno : 64 ∉ HostPort.plain host (portText p) ++ authority path := by
      rw [List.mem_append, not_or]
      exact ⟨HostText.notMem_plain hhost.user (by decide) (by decide) p, hat⟩
    rw [behindUser_of_notMem hno] at hread
    rw [splits_iff_of_notMem hhost hread]
    constructor
    · exact .inl
    · rintro (hfits | ⟨user, rest, _, hparts, _⟩)
      · exact hfits
      · apply absurd _ hat
        rw [hparts]
        exact List.mem_append_right _ List.mem_cons_self

end Selebrow.Endpoints
