import Selebrow.Controllers.Escaping

/-!
# What a browser is asked for

The path of a proxied request is put together from decoded parts and escaped when it is
sent.  What the client wrote behind the session id comes out as it was only when it is
what the decoded text is escaped to.
-/

namespace Selebrow.Controllers

open Selebrow.Path

/-- A URL as `url.Parse` returns it. -/
structure ParsedURL extends BrowserURL where
  raw : rawPath ≠ [] → unescape rawPath = some path

/-- A request for `/wd/hub/session/<rawId>/<rawTail>`, as the client wrote it, with the
id that the router finds in it. -/
structure Arrived (request : URL) (id rawId rawTail : GoString) : Prop where
  received : setPath (sessions ++ (rawId ++ slash :: rawTail)) =
    some (request.path, request.rawPath)
  routed : ∃ rest, getPath request = sessions ++ id ++ slash :: rest
  segment : slash ∉ id
  rawSegment : slash ∉ rawId
  names : ∀ s ∈ rawTail.splitOn slash, IsName s

/-- The path that the browser's resources are below, as it is written in its URL. -/
def basePath (u : URL) : GoString := trimSuffix (escapedPath u) [slash]

/-- The browser is asked for the session's resource that the client asked for. -/
def Asked (browser request : URL) (rawId rawTail : GoString) (r : Except Panic URL) : Prop :=
  ∃ u, r = .ok u ∧
    escapedPath u = basePath browser ++ (bytes "/session/" ++ (rawId ++ slash :: rawTail)) ∧
      u.rawQuery = request.rawQuery

/-- The path is written as it is escaped, and each segment names something; there may be
a slash at the end. -/
structure PlainBase (u : URL) : Prop where
  escaped : escapedPath u = escape u.path
  names : ∀ s ∈ ((trimSuffix u.path [slash]).splitOn slash).tail, IsName s

/-- The request and the base path are written as they are escaped, the id names
something, and the rewriting leaves the path alone. -/
structure Literal (browser request : URL) (id : GoString) : Prop where
  canonical : request.rawPath = []
  id_isName : IsName id
  unruled : ¬ bytes "/se/file" <:+ request.path
  base : PlainBase browser

variable {request : URL} {id rawId rawTail t : GoString}

/-! ## The base path -/

theorem trimSuffix_slash (s : GoString) :
    s = trimSuffix s [slash] ∨ s = trimSuffix s [slash] ++ [slash] := by
  by_cases h : [slash].isSuffixOf s = true
  · right
    obtain ⟨front, rfl⟩ := List.isSuffixOf_iff_suffix.mp h
    rw [trimSuffix_append]
  · left
    rw [trimSuffix, if_neg h]

theorem escape_append_slash (s : GoString) : escape (s ++ [slash]) = escape s ++ [slash] := by
  rw [escape_append, escape_slash_cons]
  rfl

theorem trimSuffix_escape (s : GoString) :
    trimSuffix (escape s) [slash] = escape (trimSuffix s [slash]) := by
  by_cases h : [slash].isSuffixOf s = true
  · obtain ⟨front, rfl⟩ := List.isSuffixOf_iff_suffix.mp h
    rw [escape_append_slash, trimSuffix_append, trimSuffix_append]
  · have hescape : ¬ [slash].isSuffixOf (escape s) = true := by
      intro hs
      obtain ⟨front, hfront⟩ := List.isSuffixOf_iff_suffix.mp hs
      obtain ⟨x, y, hxy, _, hy⟩ := escape_eq_append (hfront.symm : escape s = front ++ slash :: [])
      have hnil : y = [] := escape_injective (a := y) (b := []) hy
      rw [hnil] at hxy
      exact h (List.isSuffixOf_iff_suffix.mpr ⟨x, hxy.symm⟩)
    rw [trimSuffix, trimSuffix, if_neg h, if_neg hescape]

theorem escapedPath_eq {u : URL} {p : GoString} (h : escapedPath u = escape p) :
    escapedPath u = escape u.path := by
  have hread := unescape_escapedPath u
  rw [h, unescape_escape] at hread
  rw [h, Option.some.inj hread]

theorem basePath_eq_escape_iff {u : URL} {p : GoString} :
    basePath u = escape p ↔ escapedPath u = escape u.path ∧ trimSuffix u.path [slash] = p := by
  rw [basePath]
  constructor
  · intro h
    have hescaped : escapedPath u = escape u.path := by
      rcases trimSuffix_slash (escapedPath u) with hs | hs
      · rw [h] at hs
        exact escapedPath_eq hs
      · rw [h, ← escape_append_slash] at hs
        exact escapedPath_eq hs
    rw [hescaped, trimSuffix_escape] at h
    exact ⟨hescaped, escape_injective h⟩
  · rintro ⟨hescaped, hp⟩
    rw [hescaped, trimSuffix_escape, hp]

/-- The names below the root, each behind a slash. -/
def prefixOf (base : GoString) : GoString := rooted (namesOf base).reverse

theorem splitOn_prefixOf (base : GoString) :
    (prefixOf base).splitOn slash = [] :: (namesOf base).reverse :=
  splitOn_rooted fun s hs => (namesOf_isName base s (List.mem_reverse.mp hs)).no_slash

theorem trimSuffix_eq_prefixOf_iff {base : GoString} (h : base = [] ∨ base.head? = some slash) :
    trimSuffix base [slash] = prefixOf base ↔
      ∀ s ∈ ((trimSuffix base [slash]).splitOn slash).tail, IsName s := by
  constructor
  · intro heq s hs
    rw [heq, splitOn_prefixOf, List.tail_cons] at hs
    exact namesOf_isName base s (List.mem_reverse.mp hs)
  · intro hnames
    have hfirst : trimSuffix base [slash] = [] ∨
        (trimSuffix base [slash]).head? = some slash := by
      rcases trimSuffix_slash base with hs | hs
      · rw [← hs]
        exact h
      · rcases h with h | h
        · rw [h] at hs
          exact absurd hs.symm (List.append_ne_nil_of_right_ne_nil _ (List.cons_ne_nil _ _))
        · by_cases hnil : trimSuffix base [slash] = []
          · exact .inl hnil
          · rw [hs, List.head?_append_of_ne_nil _ hnil] at h
            exact .inr h
    have htrim := eq_rooted_of_splitOn (splitOn_of_rooted hfirst)
    have hdescend := descend_rooted hnames []
    rw [← htrim, List.append_nil] at hdescend
    have hbase : namesOf base = ((trimSuffix base [slash]).splitOn slash).tail.reverse := by
      rcases trimSuffix_slash base with hs | hs
      · rw [namesOf]
        conv_lhs => rw [hs]
        exact hdescend
      · rw [namesOf]
        conv_lhs => rw [hs, descend_append_slash]
        exact hdescend
    rw [prefixOf, hbase, List.reverse_reverse, ← htrim]

theorem basePath_iff (browser : BrowserURL) :
    basePath browser.toURL = escape (prefixOf browser.path) ↔ PlainBase browser.toURL := by
  rw [basePath_eq_escape_iff, trimSuffix_eq_prefixOf_iff browser.rooted]
  constructor
  · rintro ⟨hescaped, hnames⟩
    exact ⟨hescaped, hnames⟩
  · intro h
    exact ⟨h.escaped, h.names⟩

/-! ## The rewriting leaves a path alone -/

theorem eq_of_append_eq_cons {l xs ys : List GoString} {a : GoString}
    (h : l ++ xs = a :: (l ++ ys)) : ∀ s ∈ l, s = a := by
  induction l generalizing a with
  | nil => exact fun s hs => absurd hs List.not_mem_nil
  | cons b l ih =>
    obtain ⟨hb, hrest⟩ := List.cons.inj h
    subst hb
    rw [List.forall_mem_cons]
    exact ⟨rfl, ih hrest⟩

/-- What the rewriting takes away cannot be made up for below the session. -/
theorem rewritten_keeps {l xs ys : List GoString} (h : rewritten (l ++ xs) = l ++ ys)
    (hsession : bytes "session" ∈ l.drop 2) :
    ¬ [bytes "file", bytes "se"] <+: l ++ xs ∧ xs = ys := by
  by_cases hrule : [bytes "file", bytes "se"] <+: l ++ xs
  · obtain ⟨rest, hcons⟩ := hrule
    rw [← hcons] at h
    cases l with
    | nil => exact absurd hsession List.not_mem_nil
    | cons a l =>
      cases l with
      | nil => exact absurd hsession List.not_mem_nil
      | cons b l =>
        obtain ⟨hfile, htail⟩ := List.cons.inj hcons
        obtain ⟨hse, hrest⟩ := List.cons.inj htail
        have hrewritten : rewritten ([bytes "file", bytes "se"] ++ rest) = bytes "file" :: rest :=
          rewritten_cons rest
        rw [hrewritten, ← hfile, ← hse] at h
        have hshift := (List.cons.inj h).2
        have hrest' : rest = l ++ xs := hrest
        rw [hrest'] at hshift
        have hsame := eq_of_append_eq_cons hshift _ hsession
        exact absurd hsame (by decide)
  · rw [rewritten_unprefixed hrule] at h
    exact ⟨hrule, List.append_cancel_left h⟩

/-- The names of the session's resource that the client asked for, the last one first. -/
def asked (id t : GoString) : List GoString := (t.splitOn slash).reverse ++ [id, bytes "session"]

theorem session_mem_asked (id t : GoString) : bytes "session" ∈ (asked id t).drop 2 := by
  have hne : (t.splitOn slash).reverse ≠ [] := by
    rw [Ne, List.reverse_eq_nil_iff]
    exact List.splitOn_ne_nil slash t
  obtain ⟨s, rest, hs⟩ := List.exists_cons_of_ne_nil hne
  rw [asked, hs]
  cases rest with
  | nil => exact List.mem_singleton.mpr rfl
  | cons s' rest =>
    show bytes "session" ∈ rest ++ [id, bytes "session"]
    exact List.mem_append_right _ (List.mem_cons_of_mem _ (List.mem_singleton.mpr rfl))

theorem two_le_length_asked (id t : GoString) : 2 ≤ (asked id t).length := by
  rw [asked, List.length_append]
  exact Nat.le_add_left _ _

theorem prefix_append_iff {l : List GoString} {a b : GoString} (xs : List GoString)
    (h : 2 ≤ l.length) :
    [a, b] <+: l ++ xs ↔ [a, b] <+: l := by
  constructor
  · intro hp
    exact List.prefix_of_prefix_length_le hp (List.prefix_append l xs) h
  · intro hp
    exact hp.trans (List.prefix_append l xs)

/-- The path of the request ends as the rule says when its names do. -/
theorem ruled_iff (hid : slash ∉ id) (xs : List GoString) :
    bytes "/se/file" <:+ sessions ++ id ++ slash :: t ↔
      [bytes "file", bytes "se"] <+: asked id t ++ xs := by
  have hsessions : sessions = rooted [bytes "wd", bytes "hub", bytes "session"] ++ [slash] := by
    decide
  have hsegs : ∀ s ∈ [bytes "wd", bytes "hub", bytes "session"] ++ (id :: t.splitOn slash),
      slash ∉ s := by
    intro s hs
    rcases List.mem_append.mp hs with hs | hs
    · exact (by decide : ∀ s ∈ [bytes "wd", bytes "hub", bytes "session"], slash ∉ s) s hs
    · rcases List.mem_cons.mp hs with rfl | hs
      · exact hid
      · exact notMem_splitOn hs
  have hrule : bytes "/se/file" = absolute [bytes "se", bytes "file"] := by decide
  have hpath : sessions ++ id ++ slash :: t =
      absolute ([bytes "wd", bytes "hub", bytes "session"] ++ (id :: t.splitOn slash)) := by
    have ht : slash :: t = rooted (t.splitOn slash) :=
      eq_rooted_of_splitOn (splitOn_slash_cons t)
    rw [absolute_eq_rooted (List.append_ne_nil_of_right_ne_nil _ (List.cons_ne_nil _ _)),
      rooted_append, hsessions, ht, List.append_assoc, List.append_assoc]
    rfl
  rw [prefix_append_iff xs (two_le_length_asked id t), hpath, hrule,
    absolute_suffix_iff hsegs (by decide) (by decide) (by decide), ← List.reverse_prefix,
    ← prefix_append_iff [bytes "hub", bytes "wd"] (two_le_length_asked id t)]
  have hrev : ([bytes "wd", bytes "hub", bytes "session"] ++ (id :: t.splitOn slash)).reverse =
      asked id t ++ [bytes "hub", bytes "wd"] := by
    rw [List.reverse_append, List.reverse_cons, asked]
    simp
  rw [hrev]
  rfl

/-! ## The request -/

theorem setPath_eq_some {p path raw : GoString} (h : setPath p = some (path, raw)) :
    unescape p = some path ∧ (p = escape path → raw = []) ∧
      (p ≠ escape path → raw = p) := by
  rw [setPath, Option.map_eq_some_iff] at h
  obtain ⟨path', hpath, heq⟩ := h
  cases heq
  refine ⟨hpath, ?_, ?_⟩
  · intro hp
    rw [if_pos hp]
  · intro hp
    rw [if_neg hp]

/-- The text of the path that the client sent. -/
def sentPath (rawId rawTail : GoString) : GoString := sessions ++ (rawId ++ slash :: rawTail)

theorem sentPath_ne_nil (rawId rawTail : GoString) : sentPath rawId rawTail ≠ [] :=
  List.append_ne_nil_of_left_ne_nil (by decide) _

theorem escape_sessions (s : GoString) : escape (sessions ++ s) = sessions ++ escape s := by
  have hself : escape sessions = sessions := by decide
  rw [escape_append, hself]

namespace Arrived

variable (h : Arrived request id rawId rawTail)
include h

theorem canonical_iff :
    request.rawPath = [] ↔ sentPath rawId rawTail = escape request.path := by
  obtain ⟨_, hplain, hraw⟩ := setPath_eq_some h.received
  constructor
  · intro hnil
    by_contra hne
    have hsent := hraw hne
    rw [hnil] at hsent
    exact sentPath_ne_nil rawId rawTail hsent.symm
  · exact hplain

theorem matched : Matched request id where
  unescaped := by
    intro hne
    obtain ⟨hread, hplain, hraw⟩ := setPath_eq_some h.received
    by_cases hp : sentPath rawId rawTail = escape request.path
    · exact absurd (hplain hp) hne
    · rw [hraw hp]
      exact hread
  matched := h.routed
  segment := h.segment

/-- What is asked for behind the route is what some text is escaped to. -/
theorem canonical_of_escape {s : GoString} (hs : escape s = rawId ++ slash :: rawTail) :
    request.rawPath = [] := by
  have hread := (setPath_eq_some h.received).1
  rw [← hs, ← escape_sessions, unescape_escape] at hread
  rw [h.canonical_iff, sentPath, ← hs, ← escape_sessions, Option.some.inj hread]

/-- The id and the tail that a request has when it is written as it is escaped. -/
theorem decoded (hcanonical : request.rawPath = []) :
    ∃ t, request.path = sessions ++ id ++ slash :: t ∧ rawId = escape id ∧ rawTail = escape t ∧
      ∀ s ∈ t.splitOn slash, IsName s := by
  obtain ⟨t, ht⟩ := h.routed
  rw [getPath, if_neg (not_not.mpr hcanonical)] at ht
  have hsent := h.canonical_iff.mp hcanonical
  rw [ht, List.append_assoc, escape_sessions, escape_append, escape_slash_cons, sentPath] at hsent
  have hbehind := List.append_cancel_left hsent
  have hsplit := splitAt_append h.rawSegment rawTail
  have hid : slash ∉ escape id := fun hmem => h.segment (slash_mem_escape.mp hmem)
  rw [hbehind, splitAt_append hid] at hsplit
  have hpair := Prod.mk.inj hsplit
  have htail : rawTail = escape t := (Option.some.inj hpair.2).symm
  refine ⟨t, ht, hpair.1.symm, htail, ?_⟩
  intro s hs
  apply isName_of_escape
  apply h.names
  rw [htail, splitOn_escape]
  exact List.mem_map_of_mem hs

end Arrived

/-- The URL that a request is proxied to. -/
theorem proxyURL_ok (browser : BrowserURL) {u : URL} (h : Matched request id)
    (hu : proxyURL id browser.toURL request = .ok u) :
    u.rawPath = browser.rawPath ∧ u.rawQuery = request.rawQuery ∧
      u.path = absolute
        (rewritten (joined browser.path id (request.path.drop (tailStart id)))).reverse := by
  have hkeep : ∀ v : URL, (rewriteProxyUrl proxyRewriteRules v).rawPath = v.rawPath ∧
      (rewriteProxyUrl proxyRewriteRules v).rawQuery = v.rawQuery := by
    intro v
    rw [rewriteProxyUrl]
    split
    · exact ⟨rfl, rfl⟩
    · exact ⟨rfl, rfl⟩
  rw [proxyURL, setProxyURL_eq h, sliceFrom] at hu
  split at hu
  · cases hu
    have hurl := hkeep (urlFor id browser.toURL request (request.path.drop (tailStart id)))
    exact ⟨hurl.1, hurl.2, rewriteProxyUrl_path (joined_isName h.segment)
      (join_eq browser.rooted h.segment)⟩
  · contradiction

theorem proxied_of_le (browser : BrowserURL) (h : Matched request id)
    (hle : tailStart id ≤ request.path.length) :
    ∃ u, proxyURL id browser.toURL request = .ok u := by
  rw [proxyURL, setProxyURL_eq h, sliceFrom, if_pos hle]
  exact ⟨_, rfl⟩

/-- The tail is cut off where it begins. -/
theorem drop_tailStart (hpath : request.path = sessions ++ id ++ slash :: t) :
    tailStart id ≤ request.path.length ∧ request.path.drop (tailStart id) = slash :: t := by
  have hstart : tailStart id = (sessions ++ id).length := by
    rw [tailStart, List.length_append]
  rw [hpath, hstart]
  exact ⟨(List.prefix_append _ _).length_le, List.drop_left⟩

/-- The names that are put together when each segment of the tail names something. -/
theorem joined_slash_cons {base : GoString} (hnames : ∀ s ∈ t.splitOn slash, IsName s) :
    joined base id (slash :: t) = (t.splitOn slash).reverse ++ below base id := by
  rw [joined, walk_slash_cons hnames, Walk.on, List.drop_zero]

/-! ## The exact condition -/

theorem resource_eq (base : GoString) :
    (t.splitOn slash).reverse ++ resource base id = asked id t ++ namesOf base := by
  rw [asked, List.append_assoc]
  rfl

/-- The path of the session's resource that was asked for. -/
theorem asked_path (base : GoString) :
    absolute (asked id t ++ namesOf base).reverse =
      prefixOf base ++ (bytes "/session/" ++ (id ++ slash :: t)) := by
  have hsession : bytes "/session/" = slash :: (bytes "session" ++ [slash]) := by decide
  have hrev : (asked id t ++ namesOf base).reverse =
      (namesOf base).reverse ++ (bytes "session" :: id :: t.splitOn slash) := by
    rw [asked]
    simp
  have ht : slash :: t = rooted (t.splitOn slash) := eq_rooted_of_splitOn (splitOn_slash_cons t)
  rw [hrev, absolute_eq_rooted (List.append_ne_nil_of_right_ne_nil _ (List.cons_ne_nil _ _)),
    rooted_append, hsession, ht]
  show prefixOf base ++ (slash :: bytes "session" ++ (slash :: id ++ rooted (t.splitOn slash))) = _
  simp

/-- When the path is the one that was asked for, it was put together from the same parts. -/
theorem parts_of_path {base front : GoString} (hid : slash ∉ id)
    (hnames : ∀ s ∈ t.splitOn slash, IsName s)
    (h : absolute (rewritten ((t.splitOn slash).reverse ++ below base id)).reverse =
      front ++ (bytes "/session/" ++ (id ++ slash :: t))) :
    IsName id ∧ ¬ [bytes "file", bytes "se"] <+: asked id t ++ namesOf base ∧
      front = prefixOf base := by
  have hall : ∀ s ∈ (t.splitOn slash).reverse ++ below base id, IsName s := by
    intro s hs
    rcases List.mem_append.mp hs with hs | hs
    · exact hnames s (List.mem_reverse.mp hs)
    · exact below_isName hid s hs
  have hkept := rewritten_isName hall
  generalize hr : rewritten ((t.splitOn slash).reverse ++ below base id) = names at h hkept
  obtain ⟨c, front', hfront⟩ := List.exists_cons_of_ne_nil (List.splitOn_ne_nil slash front)
  have hsplit : (front ++ (bytes "/session/" ++ (id ++ slash :: t))).splitOn slash =
      c :: (front' ++ (bytes "session" :: id :: t.splitOn slash)) := by
    have hbehind : (bytes "session" ++ slash :: (id ++ slash :: t)).splitOn slash =
        bytes "session" :: id :: t.splitOn slash := by
      rw [List.splitOn_append_cons_self, List.splitOn_append_cons_self,
        List.splitOn_eq_singleton hid, List.splitOn_eq_singleton isName_session.no_slash]
      rfl
    show (front ++ slash :: (bytes "session" ++ slash :: (id ++ slash :: t))).splitOn slash = _
    rw [List.splitOn_append_cons_self, hfront, hbehind]
    rfl
  have hne : names.reverse ≠ [] := by
    intro hnil
    rw [hnil] at h
    have hlen := congrArg List.length h
    rw [List.length_append, List.length_append] at hlen
    have hroot : (absolute []).length = 1 := rfl
    have hsession : (bytes "/session/").length = 9 := by decide
    omega
  have hslash : ∀ s ∈ names.reverse, slash ∉ s :=
    fun s hs => (hkept s (List.mem_reverse.mp hs)).no_slash
  rw [← h, splitOn_absolute hslash hne] at hsplit
  obtain ⟨hc, hrev⟩ := List.cons.inj hsplit
  have hnames' : names = asked id t ++ front'.reverse := by
    rw [← List.reverse_reverse names, hrev, asked]
    simp
  have hname : IsName id := by
    apply hkept
    rw [hnames', asked]
    simp
  rw [hnames', below_of_isName hname, resource_eq] at hr
  obtain ⟨hrule, hbase⟩ := rewritten_keeps hr (session_mem_asked id t)
  refine ⟨hname, hrule, ?_⟩
  rw [prefixOf, hbase, List.reverse_reverse]
  rw [← hc] at hfront
  exact eq_rooted_of_splitOn hfront

/-- A URL with the browser's raw path is sent with its path escaped, unless the path is
the browser's. -/
theorem escapedPath_of_ne {browser : ParsedURL} {u : URL} (hraw : u.rawPath = browser.rawPath)
    (hne : u.path ≠ browser.path) (hroot : u.path.head? = some slash) :
    escapedPath u = escape u.path := by
  have hstar : u.path ≠ bytes "*" := by
    intro hstar
    rw [hstar] at hroot
    contradiction
  rw [escapedPath, if_neg, if_neg hstar]
  rintro ⟨hnil, _, hread⟩
  rw [hraw] at hnil hread
  rw [browser.raw hnil] at hread
  exact hne (Option.some.inj hread).symm

theorem escapedPath_of_path_eq {browser : ParsedURL} {u : URL} (hraw : u.rawPath = browser.rawPath)
    (heq : u.path = browser.path) : escapedPath u = escapedPath browser.toURL := by
  rw [escapedPath, escapedPath, hraw, heq]

theorem length_le_trimSuffix (s : GoString) : s.length ≤ (trimSuffix s [slash]).length + 1 := by
  rcases trimSuffix_slash s with h | h
  · rw [← h]
    exact Nat.le_succ _
  · have hlen := congrArg List.length h
    rw [List.length_append] at hlen
    exact Nat.le_of_eq hlen

/-- What is further down than a path is not the path. -/
theorem session_append_ne {p rest : GoString} :
    trimSuffix p [slash] ++ (bytes "/session/" ++ rest) ≠ p := by
  intro heq
  have hlen := congrArg List.length heq
  rw [List.length_append, List.length_append] at hlen
  have hsession : (bytes "/session/").length = 9 := by decide
  have hle := length_le_trimSuffix p
  omega

theorem path_ne_of_escapedPath {browser : ParsedURL} {u : URL} {rest : GoString}
    (hraw : u.rawPath = browser.rawPath)
    (h : escapedPath u = basePath browser.toURL ++ (bytes "/session/" ++ rest)) :
    u.path ≠ browser.path := by
  intro heq
  rw [escapedPath_of_path_eq hraw heq] at h
  exact session_append_ne h.symm

theorem head_absolute (names : List GoString) : (absolute names).head? = some slash := rfl

theorem escape_session_append (front rest : GoString) :
    escape (front ++ (bytes "/session/" ++ rest)) =
      escape front ++ (bytes "/session/" ++ escape rest) := by
  have hself : escape (bytes "/session/") = bytes "/session/" := by decide
  rw [escape_append, escape_append, hself]

theorem escape_eq_session_append {s front rest : GoString}
    (h : escape s = front ++ (bytes "/session/" ++ rest)) :
    ∃ x y, s = x ++ (bytes "/session/" ++ y) ∧ escape x = front ∧ escape y = rest := by
  have hself : escape (bytes "session") = bytes "session" := by decide
  obtain ⟨x, y, hs, hx, hy⟩ :=
    escape_eq_append (a := front) (b := bytes "session" ++ slash :: rest) h
  obtain ⟨name, z, hyz, hname, hz⟩ := escape_eq_append hy
  have hsession : name = bytes "session" := escape_injective (hname.trans hself.symm)
  rw [hsession] at hyz
  exact ⟨x, z, by rw [hs, hyz]; rfl, hx, hz⟩

theorem literal_of_asked {browser : ParsedURL} (h : Arrived request id rawId rawTail)
    (hasked : Asked browser.toURL request rawId rawTail (proxyURL id browser.toURL request)) :
    Literal browser.toURL request id := by
  obtain ⟨u, hu, hsent, _⟩ := hasked
  obtain ⟨hraw, _, hpath⟩ := proxyURL_ok browser.toBrowserURL h.matched hu
  have hroot : u.path.head? = some slash := by
    rw [hpath]
    exact head_absolute _
  rw [escapedPath_of_ne hraw (path_ne_of_escapedPath hraw hsent) hroot] at hsent
  obtain ⟨front, s, hparts, hfront, hs⟩ := escape_eq_session_append hsent
  have hcanonical := h.canonical_of_escape hs
  obtain ⟨t, ht, hid, htail, hnames⟩ := h.decoded hcanonical
  have hbehind : s = id ++ slash :: t := by
    apply escape_injective
    rw [hs, hid, htail, escape_append, escape_slash_cons]
  rw [(drop_tailStart ht).2, joined_slash_cons hnames, hparts, hbehind] at hpath
  obtain ⟨hname, hrule, hbase⟩ := parts_of_path h.segment hnames hpath.symm
  refine ⟨hcanonical, hname, ?_, ?_⟩
  · rw [ht, ruled_iff h.segment]
    exact hrule
  · rw [← basePath_iff, ← hbase]
    exact hfront.symm

theorem asked_of_literal {browser : ParsedURL} (h : Arrived request id rawId rawTail)
    (hlit : Literal browser.toURL request id) :
    Asked browser.toURL request rawId rawTail (proxyURL id browser.toURL request) := by
  obtain ⟨t, ht, hid, htail, hnames⟩ := h.decoded hlit.canonical
  obtain ⟨hle, hdrop⟩ := drop_tailStart ht
  have hrule : ¬ [bytes "file", bytes "se"] <+: asked id t ++ namesOf browser.path := by
    rw [← ruled_iff h.segment, ← ht]
    exact hlit.unruled
  have hbase := (basePath_iff browser.toBrowserURL).mpr hlit.base
  obtain ⟨u, hu⟩ := proxied_of_le browser.toBrowserURL h.matched hle
  obtain ⟨hraw, hquery, hpath⟩ := proxyURL_ok browser.toBrowserURL h.matched hu
  rw [hdrop, joined_slash_cons hnames, below_of_isName hlit.id_isName, resource_eq,
    rewritten_unprefixed hrule] at hpath
  have hroot : u.path.head? = some slash := by
    rw [hpath]
    exact head_absolute _
  rw [asked_path, ← (basePath_eq_escape_iff.mp hbase).2] at hpath
  have hne : u.path ≠ browser.path := by
    rw [hpath]
    exact session_append_ne
  refine ⟨u, hu, ?_, hquery⟩
  rw [escapedPath_of_ne hraw hne hroot, hpath, (basePath_eq_escape_iff.mp hbase).2,
    escape_session_append, hbase, hid, htail, escape_append, escape_slash_cons]

/-- A browser is asked for what the client asked for exactly when the base path and the
request are written as they are escaped and no part of them is left out. -/
theorem asked_iff {browser : ParsedURL} (h : Arrived request id rawId rawTail) :
    Asked browser.toURL request rawId rawTail (proxyURL id browser.toURL request) ↔
      Literal browser.toURL request id := by
  constructor
  · exact literal_of_asked h
  · exact asked_of_literal h

/-! ## Two requests -/

def parsedChromedriver : ParsedURL where
  toBrowserURL := chromedriver
  raw := fun h => absurd rfl h

theorem arrived_click : Arrived (requestFor (bytes "element/5/click")) (bytes "a1") (bytes "a1")
    (bytes "element/5/click") where
  received := by decide
  routed := ⟨bytes "element/5/click", rfl⟩
  segment := by decide
  rawSegment := by decide
  names := by decide

theorem asked_click :
    Asked parsedChromedriver.toURL (requestFor (bytes "element/5/click")) (bytes "a1")
      (bytes "element/5/click")
      (proxyURL (bytes "a1") parsedChromedriver.toURL (requestFor (bytes "element/5/click"))) := by
  apply (asked_iff arrived_click).mpr
  constructor
  · rfl
  · decide
  · decide
  · constructor
    · decide
    · decide

/-- A request for the attribute `x/y`, with the slash in it escaped. -/
def slashAttribute : URL :=
  { requestFor (bytes "element/5/attribute/x/y") with
    rawPath := sessions ++ bytes "a1/element/5/attribute/x%2Fy" }

theorem arrived_slashAttribute : Arrived slashAttribute (bytes "a1") (bytes "a1")
    (bytes "element/5/attribute/x%2Fy") where
  received := by decide
  routed := ⟨bytes "element/5/attribute/x%2Fy", rfl⟩
  segment := by decide
  rawSegment := by decide
  names := by decide

/-- The browser gets two segments for the one that the client sent. -/
theorem slashAttribute_split :
    Arrived slashAttribute (bytes "a1") (bytes "a1") (bytes "element/5/attribute/x%2Fy") ∧
      (proxyURL (bytes "a1") parsedChromedriver.toURL slashAttribute).map escapedPath =
        .ok (bytes "/wd/hub/session/a1/element/5/attribute/x/y") ∧
      ¬ Asked parsedChromedriver.toURL slashAttribute (bytes "a1") (bytes "element/5/attribute/x%2Fy")
        (proxyURL (bytes "a1") parsedChromedriver.toURL slashAttribute) := by
  have hsent : (proxyURL (bytes "a1") parsedChromedriver.toURL slashAttribute).map escapedPath =
      .ok (bytes "/wd/hub/session/a1/element/5/attribute/x/y") := by
    decide
  constructor
  · exact arrived_slashAttribute
  · constructor
    · exact hsent
    · rintro ⟨u, hu, hescaped, _⟩
      rw [hu] at hsent
      have heq := hescaped.symm.trans (Except.ok.inj hsent)
      exact absurd heq (by decide)

end Selebrow.Controllers
