import Selebrow.Path

/-!
# The path of a proxied request

`SetProxyURL` puts the path of a webdriver request together from the path of the
browser's URL, the session id and what follows the id in the request, and
`RewriteProxyUrl` then replaces one suffix.  The parts are joined with `path.Join`, which
resolves what the client wrote behind the id.
-/

namespace Selebrow.Controllers

open Selebrow.Path

structure URL where
  scheme : GoString
  host : GoString
  path : GoString
  rawPath : GoString
  rawQuery : GoString
  fragment : GoString
deriving DecidableEq, Repr

/-- A URL with a host that `url.Parse` has returned: its path is empty or rooted. -/
structure BrowserURL extends URL where
  rooted : path = [] ∨ path.head? = some slash

/-! ## The router -/

def fromHexChar (b : UInt8) : Option UInt8 :=
  if 48 ≤ b ∧ b ≤ 57 then some (b - 48)
  else if 97 ≤ b ∧ b ≤ 102 then some (b - 87)
  else if 65 ≤ b ∧ b ≤ 70 then some (b - 55)
  else none

/-- `url.PathUnescape` -/
def unescape : GoString → Option GoString
  | [] => some []
  | 37 :: a :: b :: rest => do
    let hi ← fromHexChar a
    let lo ← fromHexChar b
    return (16 * hi + lo) :: (← unescape rest)
  | 37 :: _ => none
  | b :: rest => (unescape rest).map (b :: ·)

/-- `echo.GetPath` -/
def getPath (u : URL) : GoString := if u.rawPath ≠ [] then u.rawPath else u.path

def wdhubPath : GoString := bytes "/wd/hub"
def sessionPath : GoString := bytes "/session"
def sessionParam : GoString := bytes "sess"

/-- The route of the proxied webdriver requests, `/wd/hub/session/:sess/*`. -/
def sessionRoute : GoString := wdhubPath ++ sessionPath ++ bytes "/:" ++ sessionParam ++ bytes "/*"

/-- The part of the route before the parameter. -/
def sessions : GoString := wdhubPath ++ sessionPath ++ bytes "/"

/-- The request matches the route, with this id for the parameter.  The server has set
the path to what the raw path unescapes to, and the router looks at the raw path when
there is one. -/
structure Matched (request : URL) (id : GoString) : Prop where
  unescaped : request.rawPath ≠ [] → unescape request.rawPath = some request.path
  matched : ∃ rest, getPath request = sessions ++ id ++ slash :: rest
  segment : slash ∉ id

/-! ## The middleware -/

/-- `strings.Index` -/
def index (s sep : GoString) : Option Nat :=
  (List.range (s.length + 1)).find? fun i => sep.isPrefixOf (s.drop i)

/-- `s[:n]` -/
def sliceTo (s : GoString) (n : Nat) : Except Panic GoString :=
  if n ≤ s.length then .ok (s.take n) else .error (.message (bytes "slice bounds out of range"))

/-- `s[n:]` -/
def sliceFrom (s : GoString) (n : Nat) : Except Panic GoString :=
  if n ≤ s.length then .ok (s.drop n) else .error (.message (bytes "slice bounds out of range"))

def trimPrefix (s front : GoString) : GoString :=
  if front.isPrefixOf s then s.drop front.length else s

def trimSuffix (s back : GoString) : GoString :=
  if back.isSuffixOf s then s.take (s.length - back.length) else s

def setProxyURL (route id : GoString) (browser request : URL) : Except Panic URL :=
  match index route (bytes "/:" ++ sessionParam) with
  | none => .error (.message (bytes "middleware applied to the wrong route: " ++ route))
  | some i => do
    let mount ← sliceTo request.path (i + 1)
    let tail ← sliceFrom request.path (i + id.length + 1)
    return { browser with
      path := join [browser.path, trimPrefix mount wdhubPath, id, tail],
      rawQuery := request.rawQuery,
      fragment := request.fragment }

def proxyRewriteRules : List (GoString × GoString) := [(bytes "/se/file", bytes "/file")]

/-- The first rule whose suffix the path has is applied. -/
def rewriteProxyUrl (rules : List (GoString × GoString)) (u : URL) : URL :=
  match rules.find? fun e => e.1.isSuffixOf u.path with
  | none => u
  | some (k, v) => { u with path := trimSuffix u.path k ++ v }

/-- The URL of the proxied request. -/
def proxyURL (id : GoString) (browser request : URL) : Except Panic URL :=
  (setProxyURL sessionRoute id browser request).map (rewriteProxyUrl proxyRewriteRules)

/-! ## Staying inside the session -/

/-- The names of a rooted or empty path, the last one first. -/
def namesOf (base : GoString) : List GoString := descend [] base

/-- The path is `<base>/session/<id>/` followed by at least one segment. -/
def Inside (base id path : GoString) : Prop :=
  ∃ tail, tail ≠ [] ∧ (∀ s ∈ tail, IsName s) ∧
    path = absolute ((namesOf base).reverse ++ [bytes "session", id] ++ tail)

/-- The names of the session's resource, the last one first. -/
def resource (base id : GoString) : List GoString := id :: bytes "session" :: namesOf base

/-- What follows the id leads back to where it left, and at least one segment further.
It is not the one segment that the rewriting takes for the end of `/se/file`. -/
structure StaysInside (base id tail : GoString) : Prop where
  id_isName : IsName id
  back : ∃ t, t ≠ [] ∧
    (walk tail).names = t ++ (resource base id).take (walk tail).ups ∧
      ¬ (id = bytes "se" ∧ t = [bytes "file"])

variable {base id tail : GoString}

theorem namesOf_isName (base : GoString) : ∀ s ∈ namesOf base, IsName s := by
  rw [namesOf, descend_eq_walk (by simp)]
  simpa [Walk.on] using walk_names base

/-- The stack before the tail is read. -/
def below (base id : GoString) : List GoString := push true (bytes "session" :: namesOf base) id

theorem isName_session : IsName (bytes "session") := by decide

theorem below_isName (hid : slash ∉ id) : ∀ s ∈ below base id, IsName s := by
  have hsession : ∀ s ∈ bytes "session" :: namesOf base, IsName s :=
    List.forall_mem_cons.mpr ⟨isName_session, namesOf_isName base⟩
  rw [below, ← descend_segment hid, descend_eq_walk hsession, Walk.on]
  intro s hs
  rcases List.mem_append.mp hs with hs | hs
  · exact walk_names id s hs
  · exact hsession s (List.mem_of_mem_drop hs)

theorem below_of_isName (h : IsName id) : below base id = resource base id := by
  have hskip : ¬ (id = [] ∨ id = dot) := not_or.mpr ⟨h.ne_nil, h.ne_dot⟩
  rw [below, push, if_neg hskip, if_neg h.ne_dotDot]
  rfl

/-- The names of the path that `SetProxyURL` makes, the last one first. -/
def joined (base id tail : GoString) : List GoString := (walk tail).on (below base id)

theorem join_eq (hbase : base = [] ∨ base.head? = some slash) (hid : slash ∉ id) :
    join [base, bytes "/session/", id, tail] = absolute (joined base id tail).reverse := by
  have hsession : ∀ stack, descend stack (bytes "/session/") = bytes "session" :: stack := by
    intro stack
    have hsplit : (bytes "/session/").splitOn slash = [[], bytes "session", []] := by decide
    rw [descend, hsplit]
    rfl
  have hrest : ∀ stack, [bytes "/session/", id, tail].foldl descend stack =
      descend (push true (bytes "session" :: stack) id) tail := by
    intro stack
    rw [List.foldl_cons, hsession, List.foldl_cons, List.foldl_cons, List.foldl_nil,
      descend_segment hid]
  have hfold : join [base, bytes "/session/", id, tail] =
      absolute ([bytes "/session/", id, tail].foldl descend (namesOf base)).reverse := by
    rcases hbase with rfl | hbase
    · rw [join_nil_cons]
      exact join_rooted rfl
    · rw [join_rooted hbase, List.foldl_cons]
      rfl
  rw [hfold, hrest]
  show absolute (descend (below base id) tail).reverse = _
  rw [descend_eq_walk (below_isName hid)]
  rfl

theorem joined_isName (hid : slash ∉ id) : ∀ s ∈ joined base id tail, IsName s := by
  intro s hs
  rcases List.mem_append.mp hs with hs | hs
  · exact walk_names tail s hs
  · exact below_isName hid s (List.mem_of_mem_drop hs)

/-! ## The rewriting -/

/-- What the rewriting makes of the names, the last one first. -/
def rewritten : List GoString → List GoString
  | a :: b :: rest =>
    if a = bytes "file" ∧ b = bytes "se" then bytes "file" :: rest else a :: b :: rest
  | names => names

theorem rewritten_cons (rest : List GoString) :
    rewritten (bytes "file" :: bytes "se" :: rest) = bytes "file" :: rest := by
  rw [rewritten, if_pos ⟨rfl, rfl⟩]

theorem rewritten_unprefixed {names : List GoString}
    (h : ¬ [bytes "file", bytes "se"] <+: names) : rewritten names = names := by
  cases names with
  | nil => rfl
  | cons a names =>
    cases names with
    | nil => rfl
    | cons b rest =>
      apply if_neg
      rintro ⟨rfl, rfl⟩
      exact h ⟨rest, rfl⟩

theorem rewriteProxyUrl_eq (u : URL) :
    (rewriteProxyUrl proxyRewriteRules u).path =
      if (bytes "/se/file").isSuffixOf u.path then
        trimSuffix u.path (bytes "/se/file") ++ bytes "/file"
      else u.path := by
  by_cases h : (bytes "/se/file").isSuffixOf u.path = true
  · simp [rewriteProxyUrl, proxyRewriteRules, h]
  · simp [rewriteProxyUrl, proxyRewriteRules, h]

theorem trimSuffix_append (a b : GoString) : trimSuffix (a ++ b) b = a := by
  have hlen : (a ++ b).length - b.length = a.length := by
    rw [List.length_append]
    omega
  rw [trimSuffix, if_pos (List.isSuffixOf_iff_suffix.mpr (List.suffix_append a b)), hlen,
    List.take_left]

/-- The rewriting takes the last two names for one when they are those of the rule. -/
theorem rewriteProxyUrl_path {u : URL} {names : List GoString} (hnames : ∀ s ∈ names, IsName s)
    (hu : u.path = absolute names.reverse) :
    (rewriteProxyUrl proxyRewriteRules u).path = absolute (rewritten names).reverse := by
  have hrule : bytes "/se/file" = absolute [bytes "se", bytes "file"] := by decide
  have hfile : bytes "/file" = absolute [bytes "file"] := by decide
  have hsuffix : (bytes "/se/file").isSuffixOf u.path = true ↔
      [bytes "file", bytes "se"] <+: names := by
    rw [← List.reverse_suffix, List.isSuffixOf_iff_suffix, hu, hrule]
    apply absolute_suffix_iff
    · intro s hs
      exact (hnames s (List.mem_reverse.mp hs)).no_slash
    · decide
    · decide
    · decide
  rw [rewriteProxyUrl_eq]
  by_cases h : [bytes "file", bytes "se"] <+: names
  · rw [if_pos (hsuffix.mpr h)]
    obtain ⟨rest, hcons⟩ := h
    have hnames' : names = bytes "file" :: bytes "se" :: rest := hcons.symm
    rw [hnames', rewritten_cons, List.reverse_cons]
    have hpath : u.path = absolute (rest.reverse ++ [bytes "se", bytes "file"]) := by
      rw [hu, hnames', List.reverse_cons, List.reverse_cons, List.append_assoc]
      rfl
    by_cases hrest : rest.reverse = []
    · have htrim := trimSuffix_append [] (bytes "/se/file")
      rw [List.nil_append] at htrim
      rw [hpath, hrest, List.nil_append, ← hrule, htrim, List.nil_append, List.nil_append, hfile]
    · rw [hpath, absolute_append hrest (by decide), ← hrule, trimSuffix_append,
        absolute_append hrest (by decide), hfile]
  · rw [if_neg (fun hs => h (hsuffix.mp hs)), hu]
    rw [rewritten_unprefixed h]

theorem rewritten_isName {names : List GoString} (h : ∀ s ∈ names, IsName s) :
    ∀ s ∈ rewritten names, IsName s := by
  unfold rewritten
  split
  · split
    · intro s hs
      rcases List.mem_cons.mp hs with rfl | hs
      · decide
      · exact h s (List.mem_cons_of_mem _ (List.mem_cons_of_mem _ hs))
    · exact h
  · exact h

/-! ## The exact condition -/

theorem inside_iff {names : List GoString} (h : ∀ s ∈ names, IsName s) (hid : slash ∉ id) :
    Inside base id (absolute names.reverse) ↔
      IsName id ∧ ∃ t, t ≠ [] ∧ names = t ++ resource base id := by
  constructor
  · rintro ⟨tail, hne, htail, heq⟩
    have hslash : ∀ s ∈ (namesOf base).reverse ++ [bytes "session", id] ++ tail, slash ∉ s := by
      intro s hs
      rcases List.mem_append.mp hs with hs | hs
      · rcases List.mem_append.mp hs with hs | hs
        · exact (namesOf_isName base s (List.mem_reverse.mp hs)).no_slash
        · rcases List.mem_cons.mp hs with rfl | hs
          · exact isName_session.no_slash
          · rw [List.mem_singleton.mp hs]
            exact hid
      · exact (htail s hs).no_slash
    have hrev : names.reverse = (namesOf base).reverse ++ [bytes "session", id] ++ tail := by
      apply absolute_inj (fun s hs => (h s (List.mem_reverse.mp hs)).no_slash) hslash _ _ heq
      · intro hroot
        have hmem : ([] : GoString) ∈ names := by
          rw [← List.mem_reverse, hroot]
          exact List.mem_singleton.mpr rfl
        exact (h _ hmem).ne_nil rfl
      · intro hroot
        have hlen := congrArg List.length hroot
        simp at hlen
        omega
    have hnames : names = tail.reverse ++ resource base id := by
      rw [← List.reverse_reverse names, hrev]
      simp [resource]
    constructor
    · apply h
      rw [hnames]
      exact List.mem_append_right _ List.mem_cons_self
    · exact ⟨tail.reverse, by simpa using hne, hnames⟩
  · rintro ⟨_, t, hne, hnames⟩
    apply Exists.intro t.reverse
    constructor
    · simpa using hne
    · constructor
      · intro s hs
        apply h
        rw [hnames]
        exact List.mem_append_left _ (List.mem_reverse.mp hs)
      · rw [hnames]
        simp [resource]

/-- The rewriting leaves a path of the session in it, unless it takes the id away. -/
theorem rewritten_below_iff {names : List GoString} :
    (∃ t, t ≠ [] ∧ rewritten names = t ++ resource base id) ↔
      ∃ t, t ≠ [] ∧ names = t ++ resource base id ∧ ¬ (id = bytes "se" ∧ t = [bytes "file"]) := by
  by_cases h : [bytes "file", bytes "se"] <+: names
  · obtain ⟨rest, hcons⟩ := h
    have hnames : names = bytes "file" :: bytes "se" :: rest := hcons.symm
    rw [hnames, rewritten_cons]
    constructor
    · rintro ⟨t, hne, heq⟩
      obtain ⟨a, t, rfl⟩ := List.exists_cons_of_ne_nil hne
      obtain ⟨rfl, hrest⟩ := List.cons.inj heq
      apply Exists.intro (bytes "file" :: bytes "se" :: t)
      constructor
      · exact List.cons_ne_nil _ _
      · constructor
        · rw [hrest]
          rfl
        · rintro ⟨_, ht⟩
          have hlen := congrArg List.length ht
          simp at hlen
    · rintro ⟨t, hne, heq, hkeep⟩
      obtain ⟨a, t, rfl⟩ := List.exists_cons_of_ne_nil hne
      obtain ⟨rfl, hrest⟩ := List.cons.inj heq
      cases t with
      | nil => exact absurd ⟨(List.cons.inj hrest).1.symm, rfl⟩ hkeep
      | cons b t =>
        have htail : rest = t ++ resource base id := (List.cons.inj hrest).2
        apply Exists.intro (bytes "file" :: t)
        constructor
        · exact List.cons_ne_nil _ _
        · rw [htail]
          rfl
  · rw [rewritten_unprefixed h]
    constructor
    · rintro ⟨t, hne, heq⟩
      apply Exists.intro t
      constructor
      · exact hne
      · constructor
        · exact heq
        · rintro ⟨hid, ht⟩
          apply h
          rw [heq, ht, resource, hid]
          exact ⟨_, rfl⟩
    · rintro ⟨t, hne, heq, _⟩
      exact ⟨t, hne, heq⟩

theorem joined_below_iff (h : IsName id) {t : List GoString} :
    joined base id tail = t ++ resource base id ↔
      (walk tail).names = t ++ (resource base id).take (walk tail).ups := by
  have hsplit : t ++ (resource base id).take (walk tail).ups ++
      (resource base id).drop (walk tail).ups = t ++ resource base id := by
    rw [List.append_assoc, List.take_append_drop]
  rw [joined, below_of_isName h, Walk.on, ← hsplit]
  exact List.append_left_inj _

theorem inside_proxied_iff (hid : slash ∉ id) :
    Inside base id (absolute (rewritten (joined base id tail)).reverse) ↔
      StaysInside base id tail := by
  rw [inside_iff (rewritten_isName (joined_isName hid)) hid, rewritten_below_iff]
  constructor
  · rintro ⟨hname, t, hne, heq, hkeep⟩
    exact ⟨hname, t, hne, (joined_below_iff hname).mp heq, hkeep⟩
  · rintro ⟨hname, t, hne, heq, hkeep⟩
    exact ⟨hname, t, hne, (joined_below_iff hname).mpr heq, hkeep⟩

/-! ## The request path -/

theorem unescape_append {s rest : GoString} (h : 37 ∉ s) :
    unescape (s ++ rest) = (unescape rest).map (s ++ ·) := by
  induction s with
  | nil => simp
  | cons b s ih =>
    rw [List.mem_cons, not_or] at h
    rw [List.cons_append, unescape, ih h.2, Option.map_map]
    · rfl
    · intro a c r hb
      exact absurd hb.symm h.1
    · intro hb
      exact h.1 hb.symm

/-- The path of a request that matched begins like the route. -/
theorem Matched.path_eq {request : URL} (h : Matched request id) :
    ∃ rest, request.path = sessions ++ rest := by
  obtain ⟨rest, hrest⟩ := h.matched
  rw [getPath] at hrest
  by_cases hraw : request.rawPath = []
  · rw [if_neg (not_not.mpr hraw), List.append_assoc] at hrest
    exact ⟨_, hrest⟩
  · rw [if_pos hraw] at hrest
    have hunescaped := h.unescaped hraw
    rw [hrest, List.append_assoc, unescape_append (by decide), Option.map_eq_some_iff] at hunescaped
    obtain ⟨rest', _, hpath⟩ := hunescaped
    exact ⟨rest', hpath.symm⟩

/-- Where the part behind the id begins in the path. -/
def tailStart (id : GoString) : Nat := sessions.length + id.length

/-- The browser's URL with the path, the query and the fragment of the request. -/
def urlFor (id : GoString) (browser request : URL) (tail : GoString) : URL :=
  { browser with
    path := join [browser.path, bytes "/session/", id, tail],
    rawQuery := request.rawQuery,
    fragment := request.fragment }

/-- For a request that matched, only the tail can be out of range. -/
theorem setProxyURL_eq {browser request : URL} (h : Matched request id) :
    setProxyURL sessionRoute id browser request =
      (sliceFrom request.path (tailStart id)).map (urlFor id browser request) := by
  obtain ⟨rest, hpath⟩ := h.path_eq
  have hindex : index sessionRoute (bytes "/:" ++ sessionParam) = some 15 := by decide
  have hsessions : sessions.length = 15 + 1 := by decide
  have hmount : trimPrefix (request.path.take (15 + 1)) wdhubPath = bytes "/session/" := by
    rw [hpath, ← hsessions, List.take_left]
    decide
  have hto : sliceTo request.path (15 + 1) = .ok (request.path.take (15 + 1)) := by
    rw [sliceTo, if_pos]
    rw [hpath, List.length_append, hsessions]
    omega
  have hstart : 15 + id.length + 1 = tailStart id := by
    rw [tailStart, hsessions]
    omega
  rw [setProxyURL, hindex]
  show (sliceTo request.path (15 + 1) >>= fun mount => _) = _
  rw [hto, hstart]
  show (sliceFrom request.path (tailStart id) >>= fun tail => _) = _
  rw [hmount]
  cases sliceFrom request.path (tailStart id) <;> rfl

/-- The URL that the request is proxied to, if it is, stays inside the session. -/
def Contained (base id : GoString) (r : Except Panic URL) : Prop :=
  ∀ v, r = .ok v → Inside base id v.path

theorem contained_iff_of_le (browser : BrowserURL) {request : URL} (h : Matched request id)
    (hlen : tailStart id ≤ request.path.length) :
    Contained browser.path id (proxyURL id browser.toURL request) ↔
      StaysInside browser.path id (request.path.drop (tailStart id)) := by
  rw [Contained, proxyURL, setProxyURL_eq h, sliceFrom, if_pos hlen,
    ← inside_proxied_iff h.segment, ← rewriteProxyUrl_path
      (u := urlFor id browser.toURL request (request.path.drop (tailStart id)))
      (joined_isName h.segment) (join_eq browser.rooted h.segment)]
  constructor
  · intro hc
    exact hc _ rfl
  · intro hi v hv
    cases hv
    exact hi

/-- A request is proxied into its session exactly when its tail leads back to the session,
or when it is not proxied. -/
theorem contained_iff {browser : BrowserURL} {request : URL} (h : Matched request id) :
    Contained browser.path id (proxyURL id browser.toURL request) ↔
      (tailStart id ≤ request.path.length →
        StaysInside browser.path id (request.path.drop (tailStart id))) := by
  by_cases hlen : tailStart id ≤ request.path.length
  · rw [contained_iff_of_le browser h hlen]
    exact ⟨fun hs _ => hs, fun hs => hs hlen⟩
  · constructor
    · intro _ hle
      exact absurd hle hlen
    · intro _ v hv
      rw [proxyURL, setProxyURL_eq h, sliceFrom, if_neg hlen] at hv
      contradiction

/-! ## Three requests -/

def chromedriver : BrowserURL where
  scheme := bytes "http"
  host := bytes "172.18.0.2:4444"
  path := bytes "/wd/hub"
  rawPath := []
  rawQuery := []
  fragment := []
  rooted := .inr rfl

/-- A request that the server has got, with this behind the session id `a1`. -/
def requestFor (tail : GoString) : URL :=
  ⟨[], [], sessions ++ bytes "a1" ++ slash :: tail, [], [], []⟩

theorem matched_requestFor (tail : GoString) : Matched (requestFor tail) (bytes "a1") where
  unescaped := fun h => absurd rfl h
  matched := ⟨tail, rfl⟩
  segment := by decide

theorem contained_element :
    Contained (bytes "/wd/hub") (bytes "a1")
      (proxyURL (bytes "a1") chromedriver.toURL (requestFor (bytes "element/5/click"))) := by
  apply (@contained_iff _ chromedriver _ (matched_requestFor _)).mpr
  intro _
  constructor
  · decide
  · apply Exists.intro [bytes "click", bytes "5", bytes "element"]
    constructor
    · decide
    · constructor
      · decide
      · decide

/-- A trailing slash leads to the session itself, a `..` to another session. -/
theorem requests_escape :
    (proxyURL (bytes "a1") chromedriver.toURL (requestFor [])).map URL.path =
        .ok (bytes "/wd/hub/session/a1") ∧
      (proxyURL (bytes "a1") chromedriver.toURL (requestFor (bytes "../b2/url"))).map URL.path =
        .ok (bytes "/wd/hub/session/b2/url") ∧
      ¬ Contained (bytes "/wd/hub") (bytes "a1")
        (proxyURL (bytes "a1") chromedriver.toURL (requestFor [])) ∧
      ¬ Contained (bytes "/wd/hub") (bytes "a1")
        (proxyURL (bytes "a1") chromedriver.toURL (requestFor (bytes "../b2/url"))) := by
  constructor
  · decide
  · constructor
    · decide
    · constructor
      · intro h
        obtain ⟨_, t, hne, heq, _⟩ :=
          (contained_iff_of_le chromedriver (matched_requestFor _) (by decide)).mp h
        have hwalk : walk ((requestFor []).path.drop (tailStart (bytes "a1"))) = ⟨0, []⟩ := by
          decide
        rw [hwalk] at heq
        exact hne (List.append_eq_nil_iff.mp heq.symm).1
      · intro h
        obtain ⟨_, t, _, heq, _⟩ :=
          (contained_iff_of_le chromedriver (matched_requestFor _) (by decide)).mp h
        have hwalk : walk ((requestFor (bytes "../b2/url")).path.drop (tailStart (bytes "a1"))) =
            ⟨1, [bytes "url", bytes "b2"]⟩ := by
          decide
        rw [hwalk] at heq
        have hlast := congrArg List.getLast? heq
        simp [resource] at hlast
        exact absurd hlast (by decide)

end Selebrow.Controllers
