import Selebrow.Go

/-!
# Hosts and ports of URLs

`net/url` keeps the authority of a URL as one string, and reads the host and the port
off it each time: the port is what is behind the last colon, if that is digits only, and
brackets around the rest are dropped.  `net.JoinHostPort` writes such a string, with
brackets around a host that has a colon in it.
-/

namespace Selebrow.Net

/-- A `url.URL`. -/
structure URL where
  scheme : GoString
  host : GoString
  path : GoString
  rawQuery : GoString
deriving DecidableEq, Repr

/-- What is before the last separator and behind it. -/
def splitLast (sep : UInt8) : GoString → Option (GoString × GoString)
  | [] => none
  | b :: rest =>
    match splitLast sep rest with
    | some (pre, post) => some (b :: pre, post)
    | none => if b = sep then some ([], rest) else none

def isDigit (b : UInt8) : Bool := 48 ≤ b && b ≤ 57

/-- The string without its port, and the port. -/
def cutPort (hostPort : GoString) : GoString × GoString :=
  match splitLast 58 hostPort with
  | none => (hostPort, [])
  | some (host, port) => if port.all isDigit then (host, port) else (hostPort, [])

/-- The string begins with `[` and ends with `]`. -/
def Bracketed (host : GoString) : Prop := host.head? = some 91 ∧ host.getLast? = some 93

instance (host : GoString) : Decidable (Bracketed host) :=
  inferInstanceAs (Decidable (_ ∧ _))

def stripBrackets (host : GoString) : GoString :=
  if Bracketed host then host.tail.dropLast else host

def splitHostPort (hostPort : GoString) : GoString × GoString :=
  (stripBrackets (cutPort hostPort).1, (cutPort hostPort).2)

namespace URL

def hostname (u : URL) : GoString := (splitHostPort u.host).1

def port (u : URL) : GoString := (splitHostPort u.host).2

end URL

/-- `net.JoinHostPort` -/
def joinHostPort (host port : GoString) : GoString :=
  if 58 ∈ host then 91 :: (host ++ 93 :: 58 :: port) else host ++ 58 :: port

/-- Behind the last colon of the string there are digits only, perhaps none. -/
def EndsInPort (s : GoString) : Prop :=
  ∃ pre port : GoString, s = pre ++ 58 :: port ∧ port.all isDigit = true

/-! ## The last separator -/

theorem splitLast_append {sep : UInt8} {post : GoString} (h : sep ∉ post) (pre : GoString) :
    splitLast sep (pre ++ sep :: post) = some (pre, post) := by
  have hnone : splitLast sep post = none := by
    induction post with
    | nil => rfl
    | cons b post ih =>
      rw [List.mem_cons, not_or] at h
      rw [splitLast, ih h.2]
      exact if_neg (Ne.symm h.1)
  induction pre with
  | nil =>
    rw [List.nil_append, splitLast, hnone]
    exact if_pos rfl
  | cons b pre ih => rw [List.cons_append, splitLast, ih]

theorem splitLast_eq_some {sep : UInt8} {s pre post : GoString}
    (h : splitLast sep s = some (pre, post)) : s = pre ++ sep :: post := by
  induction s generalizing pre with
  | nil => contradiction
  | cons b rest ih =>
    rw [splitLast] at h
    cases hrest : splitLast sep rest with
    | some e =>
      rw [hrest] at h
      cases h
      rw [ih hrest, List.cons_append]
    | none =>
      rw [hrest] at h
      simp only at h
      split at h
      · rename_i hb
        cases h
        rw [hb, List.nil_append]
      · contradiction

theorem colon_notMem_of_digits {port : GoString} (h : port.all isDigit = true) :
    (58 : UInt8) ∉ port := by
  intro hmem
  have hdigit := List.all_eq_true.mp h 58 hmem
  contradiction

/-! ## Brackets -/

/-- Something is lost when brackets are dropped. -/
theorem length_tail_dropLast_lt {host : GoString} (h : Bracketed host) :
    host.tail.dropLast.length < host.length := by
  cases host with
  | nil => cases h.1
  | cons b rest =>
    rw [List.tail_cons, List.length_dropLast, List.length_cons]
    omega

theorem stripBrackets_eq_self_iff {host : GoString} :
    stripBrackets host = host ↔ ¬ Bracketed host := by
  rw [stripBrackets]
  by_cases h : Bracketed host
  · rw [if_pos h]
    have hlt := length_tail_dropLast_lt h
    constructor
    · intro heq
      rw [heq] at hlt
      exact absurd hlt (Nat.lt_irrefl _)
    · intro hnot
      exact absurd h hnot
  · rw [if_neg h]
    exact ⟨fun _ => h, fun _ => rfl⟩

theorem length_stripBrackets_le (host : GoString) : (stripBrackets host).length ≤ host.length := by
  rw [stripBrackets]
  split
  · rename_i h
    exact Nat.le_of_lt (length_tail_dropLast_lt h)
  · exact Nat.le_refl _

theorem stripBrackets_brackets (host : GoString) : stripBrackets (91 :: (host ++ [93])) = host := by
  have h : Bracketed (91 :: (host ++ [93])) := by
    constructor
    · rfl
    · rw [← List.cons_append, List.getLast?_append]
      rfl
  rw [stripBrackets, if_pos h, List.tail_cons, List.dropLast_concat]

/-! ## Reading -/

theorem cutPort_append {port : GoString} (h : port.all isDigit = true) (pre : GoString) :
    cutPort (pre ++ 58 :: port) = (pre, port) := by
  rw [cutPort, splitLast_append (colon_notMem_of_digits h) pre]
  exact if_pos h

/-- A port is cut off exactly when the string ends in one. -/
theorem cutPort_of_not_endsInPort {s : GoString} (h : ¬ EndsInPort s) : cutPort s = (s, []) := by
  rw [cutPort]
  cases hsplit : splitLast 58 s with
  | none => rfl
  | some e =>
    have hdigits : ¬ e.2.all isDigit = true := by
      intro hall
      exact h ⟨e.1, e.2, splitLast_eq_some hsplit, hall⟩
    exact if_neg hdigits

theorem digits_cutPort (s : GoString) : (cutPort s).2.all isDigit = true := by
  by_cases h : EndsInPort s
  · obtain ⟨pre, port, rfl, hdigits⟩ := h
    rw [cutPort_append hdigits]
    exact hdigits
  · rw [cutPort_of_not_endsInPort h]
    rfl

theorem digits_port (u : URL) : u.port.all isDigit = true := digits_cutPort u.host

/-- Without a port, the string is its host when nothing in it is read as something else. -/
theorem splitHostPort_eq_self_iff {s : GoString} :
    splitHostPort s = (s, []) ↔ ¬ EndsInPort s ∧ ¬ Bracketed s := by
  constructor
  · intro h
    have hport : ¬ EndsInPort s := by
      rintro ⟨pre, port, rfl, hdigits⟩
      rw [splitHostPort, cutPort_append hdigits] at h
      have hlen := congrArg List.length (Prod.ext_iff.mp h).1
      have hle := length_stripBrackets_le pre
      simp only [List.length_append, List.length_cons] at hlen
      omega
    refine ⟨hport, ?_⟩
    rw [splitHostPort, cutPort_of_not_endsInPort hport] at h
    exact stripBrackets_eq_self_iff.mp (Prod.ext_iff.mp h).1
  · rintro ⟨hport, hbrackets⟩
    rw [splitHostPort, cutPort_of_not_endsInPort hport, stripBrackets_eq_self_iff.mpr hbrackets]

/-- What `JoinHostPort` wrote is read back, but brackets of the host are lost if it has
no colon. -/
theorem splitHostPort_joinHostPort {port : GoString} (h : port.all isDigit = true)
    (host : GoString) :
    splitHostPort (joinHostPort host port) =
      (if 58 ∈ host then host else stripBrackets host, port) := by
  rw [splitHostPort, joinHostPort]
  by_cases hcolon : (58 : UInt8) ∈ host
  · have hform : 91 :: (host ++ 93 :: 58 :: port) = (91 :: (host ++ [93])) ++ 58 :: port := by simp
    rw [if_pos hcolon, if_pos hcolon, hform, cutPort_append h, stripBrackets_brackets]
  · rw [if_neg hcolon, if_neg hcolon, cutPort_append h]

/-! ## Parsing -/

/-- The parts of `url.Parse` that look at one component of a URL.  What they accept
differs between releases. -/
structure Grammar where
  /-- The host of an authority, under a scheme. -/
  parseAuthority : GoString → GoString → Except GoString GoString
  unescapePath : GoString → Except GoString GoString
  unescapeFragment : GoString → Except GoString GoString

def isCTL (b : UInt8) : Bool := b < 32 || b == 127

def isLetter (b : UInt8) : Bool := (97 ≤ b && b ≤ 122) || (65 ≤ b && b ≤ 90)

def toLower (b : UInt8) : UInt8 := if 65 ≤ b && b ≤ 90 then b + 32 else b

/-- The loop of `getScheme`; `seen` is behind it. -/
def schemeLoop (seen : GoString) : GoString → Except GoString (GoString × GoString)
  | [] => .ok ([], seen)
  | c :: rest =>
    if isLetter c then schemeLoop (seen ++ [c]) rest
    else if isDigit c || c == 43 || c == 45 || c == 46 then
      if seen = [] then .ok ([], seen ++ c :: rest) else schemeLoop (seen ++ [c]) rest
    else if c = 58 then
      if seen = [] then .error (bytes "missing protocol scheme") else .ok (seen, rest)
    else .ok ([], seen ++ c :: rest)

def getScheme (rawURL : GoString) : Except GoString (GoString × GoString) := schemeLoop [] rawURL

section Parse

variable (g : Grammar)

/-- What is behind the scheme, without query and fragment. -/
def parseRest (scheme rawQuery rest : GoString) : Except GoString URL :=
  if (bytes "/").isPrefixOf rest then
    if (scheme ≠ [] ∨ !(bytes "///").isPrefixOf rest) ∧ (bytes "//").isPrefixOf rest then do
      let authority := (splitAt 47 (rest.drop 2)).1
      let host ← g.parseAuthority scheme authority
      let path ← g.unescapePath (rest.drop (2 + authority.length))
      return ⟨scheme, host, path, rawQuery⟩
    else do
      let path ← g.unescapePath rest
      return ⟨scheme, [], path, rawQuery⟩
  else if scheme ≠ [] then
    -- a rootless path is kept apart, without a host
    .ok ⟨scheme, [], [], rawQuery⟩
  else if 58 ∈ (splitAt 47 rest).1 then
    .error (bytes "first path segment in URL cannot contain colon")
  else do
    let path ← g.unescapePath rest
    return ⟨scheme, [], path, rawQuery⟩

/-- `parse`: a URL without its fragment. -/
def parsePlain (rawURL : GoString) : Except GoString URL :=
  if rawURL.any isCTL then .error (bytes "net/url: invalid control character in URL")
  else if rawURL = bytes "*" then .ok ⟨[], [], bytes "*", []⟩
  else do
    let (scheme, rest) ← getScheme rawURL
    parseRest g (scheme.map toLower) ((splitAt 63 rest).2.getD []) (splitAt 63 rest).1

/-- `url.Parse` -/
def parseURL (rawURL : GoString) : Except GoString URL := do
  let url ← parsePlain g (splitAt 35 rawURL).1
  let frag := (splitAt 35 rawURL).2.getD []
  if frag = [] then return url
  else do
    let _ ← g.unescapeFragment frag
    return url

/-! ## What a parsed URL says about the text -/

variable {g}

/-- Without a scheme, nothing is taken off the text. -/
theorem schemeLoop_eq_nil (seen : GoString) {s rest : GoString} (h : schemeLoop seen s = .ok ([], rest)) :
    rest = seen ++ s := by
  induction s generalizing seen with
  | nil =>
    cases h
    rw [List.append_nil]
  | cons c s ih =>
    have hseen : (seen ++ [c]) ++ s = seen ++ c :: s := by simp
    rw [schemeLoop] at h
    split at h
    · rw [ih _ h, hseen]
    · split at h
      · split at h
        · cases h
          rfl
        · rw [ih _ h, hseen]
      · split at h
        · split at h
          · contradiction
          · rename_i hne
            cases h
            exact absurd rfl hne
        · cases h
          rfl

theorem parsePlain_of_parseURL {rawURL : GoString} {u : URL} (h : parseURL g rawURL = .ok u) :
    parsePlain g (splitAt 35 rawURL).1 = .ok u := by
  rw [parseURL] at h
  cases hplain : parsePlain g (splitAt 35 rawURL).1 with
  | error err =>
    rw [hplain] at h
    contradiction
  | ok url =>
    rw [hplain] at h
    change (if _ then _ else _) = Except.ok u at h
    split at h
    · exact h
    · cases hfrag : g.unescapeFragment ((splitAt 35 rawURL).2.getD []) with
      | error err =>
        rw [hfrag] at h
        contradiction
      | ok _ =>
        rw [hfrag] at h
        exact h

/-- The host is empty, or it is what stands between two slashes and the next one. -/
theorem parseRest_eq_ok {scheme rawQuery rest : GoString} {u : URL}
    (h : parseRest g scheme rawQuery rest = .ok u) :
    u.scheme = scheme ∧ (u.host = [] ∨ bytes "//" <+: rest ∧
      g.parseAuthority scheme (splitAt 47 (rest.drop 2)).1 = .ok u.host) := by
  have hpath : ∀ {host p : GoString}, (do
      let path ← g.unescapePath p
      return (⟨scheme, host, path, rawQuery⟩ : URL)) = .ok u → u.scheme = scheme ∧ u.host = host := by
    intro host p hp
    cases hunescape : g.unescapePath p with
    | error err =>
      rw [hunescape] at hp
      contradiction
    | ok path =>
      rw [hunescape] at hp
      cases hp
      exact ⟨rfl, rfl⟩
  rw [parseRest] at h
  split at h
  · split at h
    · rename_i hauthority
      cases hhost : g.parseAuthority scheme (splitAt 47 (rest.drop 2)).1 with
      | error err =>
        simp only [hhost] at h
        contradiction
      | ok host =>
        simp only [hhost] at h
        obtain ⟨hscheme, rfl⟩ := hpath h
        exact ⟨hscheme, .inr ⟨List.isPrefixOf_iff_prefix.mp hauthority.2, rfl⟩⟩
    · obtain ⟨hscheme, hnil⟩ := hpath h
      exact ⟨hscheme, .inl hnil⟩
  · split at h
    · cases h
      exact ⟨rfl, .inl rfl⟩
    · split at h
      · contradiction
      · obtain ⟨hscheme, hnil⟩ := hpath h
        exact ⟨hscheme, .inl hnil⟩

/-- A URL that begins with a scheme and two slashes. -/
theorem parsePlain_slashes (scheme : GoString) {s : GoString} {u : URL}
    (hget : getScheme (scheme ++ bytes "://" ++ s) = .ok (scheme, bytes "//" ++ s))
    (hlower : scheme.map toLower = scheme)
    (h : parsePlain g (scheme ++ bytes "://" ++ s) = .ok u) :
    parseRest g scheme ((splitAt 63 s).2.getD []) (bytes "//" ++ (splitAt 63 s).1) = .ok u := by
  have hstar : scheme ++ bytes "://" ++ s ≠ bytes "*" := by
    intro heq
    have hlen := congrArg List.length heq
    have hthree : (bytes "://").length = 3 := by decide
    have hone : (bytes "*").length = 1 := by decide
    rw [List.length_append, List.length_append, hthree, hone] at hlen
    omega
  rw [parsePlain] at h
  by_cases hctl : (scheme ++ bytes "://" ++ s).any isCTL = true
  · rw [if_pos hctl] at h
    contradiction
  · rw [if_neg hctl, if_neg hstar, hget] at h
    have hrest : parseRest g (scheme.map toLower) ((splitAt 63 (bytes "//" ++ s)).2.getD [])
        (splitAt 63 (bytes "//" ++ s)).1 = .ok u := h
    rw [hlower, splitAt_append_left (by decide)] at hrest
    exact hrest

/-- `//host` without a scheme: behind a scheme and two more slashes, the host is a part of
the path. -/
theorem slashes_of_host {rawURL : GoString} {u : URL} (h : parsePlain g rawURL = .ok u)
    (hscheme : u.scheme = []) (hhost : u.host ≠ []) : bytes "//" <+: (splitAt 63 rawURL).1 := by
  rw [parsePlain] at h
  split at h
  · contradiction
  · split at h
    · cases h
      exact absurd rfl hhost
    · cases hget : getScheme rawURL with
      | error err =>
        rw [hget] at h
        contradiction
      | ok e =>
        rw [hget] at h
        obtain ⟨hs, hor⟩ := parseRest_eq_ok (g := g) h
        rw [hscheme] at hs
        have hnil : e.1 = [] := List.map_eq_nil_iff.mp hs.symm
        have hrest : e.2 = rawURL := schemeLoop_eq_nil [] (by
          rw [← getScheme, hget, ← hnil])
        rw [← hrest]
        exact (hor.resolve_left hhost).1

/-- Read behind `http://`, a text that has a host without a scheme has no host. -/
theorem host_eq_nil_behind_http (hauth : g.parseAuthority (bytes "http") [] = .ok [])
    {rawURL : GoString} {u p : URL} (hu : parseURL g rawURL = .ok u) (hscheme : u.scheme = [])
    (hhost : u.host ≠ []) (hp : parseURL g (bytes "http://" ++ rawURL) = .ok p) : p.host = [] := by
  obtain ⟨t, ht⟩ := slashes_of_host (parsePlain_of_parseURL hu) hscheme hhost
  have hplain := parsePlain_of_parseURL hp
  rw [splitAt_append_left (by decide)] at hplain
  have hrest := (parseRest_eq_ok (parsePlain_slashes (bytes "http") rfl rfl hplain)).2
  rw [← ht] at hrest
  rcases hrest with hnil | ⟨_, hauthority⟩
  · exact hnil
  · have hempty : g.parseAuthority (bytes "http") [] = .ok p.host := hauthority
    rw [hauth] at hempty
    exact (Except.ok.inj hempty).symm

theorem scheme_behind_https {s : GoString} {u : URL}
    (h : parseURL g (bytes "https://" ++ s) = .ok u) : u.scheme = bytes "https" := by
  have hplain := parsePlain_of_parseURL h
  rw [splitAt_append_left (by decide)] at hplain
  exact (parseRest_eq_ok (parsePlain_slashes (bytes "https") rfl rfl hplain)).1

end Parse

end Selebrow.Net
