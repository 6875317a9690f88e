import Selebrow.Proxy.Resolve

/-!
# The dialer of the tunnels

A `CONNECT` request is tunnelled by a dialer that asks the rules whether its target needs
an upstream proxy.  Which proxy that is, the rules know from the variable `HTTPS_PROXY`;
the address that is dialled comes from the same variable, but the application parses it
on its own.  The rules and the grammar of URLs are parameters.
-/

namespace Selebrow.Proxy

open Net

/-- `os.Getenv` of the first variable that is not empty. -/
def getEnvAny (getenv : GoString → GoString) : List GoString → GoString
  | [] => []
  | n :: names => if getenv n ≠ [] then getenv n else getEnvAny getenv names

structure ProxyDialer where
  proxyAddress : GoString

/-- A `net.Dialer`, or a `PerHostDialer` that has one for the targets without a proxy. -/
inductive ConnectDialer
  | net
  | perHost (dialer : ProxyDialer)

def newProxyDialer (proxyURL : URL) : ProxyDialer := ⟨proxyURL.host⟩

/-- An error ends the process. -/
def initProxyConnectDialer (g : Grammar) (getenv : GoString → GoString) :
    Except GoString ConnectDialer :=
  let proxyURL := getEnvAny getenv [bytes "HTTPS_PROXY", bytes "https_proxy"]
  if proxyURL ≠ [] then
    match parseURL g proxyURL with
    | .error _ => .error (bytes "failed to parse proxy URL: " ++ proxyURL)
    | .ok u => .ok (.perHost (newProxyDialer u))
  else .ok .net

/-- The proxy dialer, or none where it is bypassed. -/
def getDialer (g : Grammar) (proxyFunc : URL → Except GoString (Option URL))
    (dialer : ProxyDialer) (address : GoString) : Except GoString (Option ProxyDialer) :=
  match parseURL g (bytes "https://" ++ address) with
  | .error err => .error err
  | .ok u =>
    match proxyFunc u with
    | .error err => .error err
    | .ok none => .ok none
    | .ok (some _) => .ok (some dialer)

/-- The address that `net.Dialer` is called with.  The proxy dialer wants the request in
the context. -/
def dialContext (g : Grammar) (proxyFunc : URL → Except GoString (Option URL))
    (proxyRequest : Bool) (address : GoString) : ConnectDialer → Except GoString GoString
  | .net => .ok address
  | .perHost dialer =>
    match getDialer g proxyFunc dialer address with
    | .error err => .error err
    | .ok none => .ok address
    | .ok (some proxyDialer) =>
      if proxyRequest then .ok proxyDialer.proxyAddress
      else .error (bytes "proxy request is not set in the context")

/-- What `InitProxyHandlerFunc` starts from. -/
structure Setup (IP : Type) where
  grammar : Grammar
  getenv : GoString → GoString
  /-- `cfg.ProxyResolveHost()` -/
  resolveHost : Bool
  parseIP : GoString → Option IP
  lookupHost : GoString → Except GoString (List GoString)
  /-- `httpproxy.FromEnvironment().ProxyFunc()`, for a value of `HTTPS_PROXY` -/
  rules : GoString → URL → Except GoString (Option URL)

namespace Setup

variable {IP : Type} (s : Setup IP)

def value : GoString := getEnvAny s.getenv [bytes "HTTPS_PROXY", bytes "https_proxy"]

def proxyFunc (u : URL) : Except GoString (Option URL) :=
  if s.resolveHost then
    resolveProxyFunc s.parseIP s.lookupHost (fun heap p => s.rules s.value (heap.cells p))
      (heapOf u) 0
  else s.rules s.value u

/-- The address that `handleConnect` has connected to for its target. -/
def handleConnect (target : GoString) : Except GoString GoString :=
  match initProxyConnectDialer s.grammar s.getenv with
  | .error err => .error err
  | .ok connDialer => dialContext s.grammar s.proxyFunc true target connDialer

/-- What the rules say about `https://target`, if they say anything. -/
def ruled (target : GoString) : Option (Option URL) :=
  match parseURL s.grammar (bytes "https://" ++ target) with
  | .error _ => none
  | .ok u =>
    match s.proxyFunc u with
    | .error _ => none
    | .ok proxyURL => some proxyURL

end Setup

/-! ## What is claimed of it -/

def defaultPort (scheme : GoString) : Option GoString :=
  if scheme = bytes "http" then some (bytes "80")
  else if scheme = bytes "https" then some (bytes "443")
  else if scheme = bytes "socks5" ∨ scheme = bytes "socks5h" then some (bytes "1080")
  else none

/-- The host and the port that a proxy URL names. -/
def addressOf (p : URL) : Option GoString :=
  if p.host = [] then none
  else if p.port ≠ [] then some p.host
  else (defaultPort p.scheme).map fun port => (cutPort p.host).1 ++ 58 :: port

/-- The value is a URL with a scheme and a host. -/
def Complete (g : Grammar) (v : GoString) (u : URL) : Prop :=
  parseURL g v = .ok u ∧ u.scheme ≠ [] ∧ u.host ≠ []

/-- How `httpproxy` reads the variable: a complete URL as it is, another value behind
`http://` if that parses, and else as it is.  The rules choose nothing else. -/
structure ReadsValue (g : Grammar) (rules : GoString → URL → Except GoString (Option URL)) :
    Prop where
  unset : ∀ r p, r.scheme = bytes "https" → rules [] r ≠ .ok (some p)
  complete : ∀ v u r p, Complete g v u → r.scheme = bytes "https" → rules v r = .ok (some p) → p = u
  bare : ∀ v q r p, (∀ u, ¬ Complete g v u) → parseURL g (bytes "http://" ++ v) = .ok q →
    r.scheme = bytes "https" → rules v r = .ok (some p) → p = q
  other : ∀ v u r p, (∀ u, ¬ Complete g v u) → (∀ q, parseURL g (bytes "http://" ++ v) ≠ .ok q) →
    parseURL g v = .ok u → r.scheme = bytes "https" → rules v r = .ok (some p) → p = u

namespace Setup

variable {IP : Type} (s : Setup IP)

/-- The target is reached as the rules say. -/
def FollowsRules (target : GoString) : Prop :=
  match s.ruled target with
  | none => True
  | some none => s.handleConnect target = .ok target
  | some (some p) => ∃ address, addressOf p = some address ∧ s.handleConnect target = .ok address

/-- The variable has a value that the application parses; for a target with a proxy it is
a URL that names its port, and not one that is read behind `http://`. -/
def NamesProxy (target : GoString) : Prop :=
  match s.ruled target with
  | none => True
  | some none => s.value = [] ∨ ∃ u, parseURL s.grammar s.value = .ok u
  | some (some _) => ∃ u, parseURL s.grammar s.value = .ok u ∧ u.port ≠ [] ∧
      (u.scheme ≠ [] ∨ ∀ q, parseURL s.grammar (bytes "http://" ++ s.value) ≠ .ok q)

end Setup

/-! ## Addresses -/

theorem host_ne_nil_of_port {p : URL} (h : p.port ≠ []) : p.host ≠ [] := by
  intro hhost
  apply h
  rw [URL.port, hhost]
  rfl

theorem defaultPort_digits {scheme port : GoString} (h : defaultPort scheme = some port) :
    port.all isDigit = true ∧ port ≠ [] := by
  rw [defaultPort] at h
  split at h
  · cases h
    decide
  · split at h
    · cases h
      decide
    · split at h
      · cases h
        decide
      · contradiction

/-- The host of a URL is its address when it has a port: with the default port it would
be longer. -/
theorem addressOf_eq_host_iff {p : URL} : addressOf p = some p.host ↔ p.port ≠ [] := by
  constructor
  · intro h hport
    rw [addressOf] at h
    split at h
    · contradiction
    · rw [if_neg (Classical.not_not.mpr hport), Option.map_eq_some_iff] at h
      obtain ⟨port, hdefault, haddress⟩ := h
      obtain ⟨hdigits, hne⟩ := defaultPort_digits hdefault
      apply hne
      rw [← hport, URL.port, splitHostPort, ← haddress, cutPort_append hdigits]
  · intro hport
    rw [addressOf, if_neg (host_ne_nil_of_port hport), if_pos hport]

theorem addressOf_ne_nil (p : URL) : addressOf p ≠ some [] := by
  rw [addressOf]
  split
  · nofun
  · rename_i hhost
    split
    · intro h
      exact hhost (Option.some.inj h)
    · intro h
      obtain ⟨port, _, hnil⟩ := Option.map_eq_some_iff.mp h
      exact absurd hnil (List.append_ne_nil_of_right_ne_nil _ (List.cons_ne_nil _ _))

theorem addressOf_of_host_eq_nil {p : URL} (h : p.host = []) : addressOf p = none := by
  rw [addressOf, if_pos h]

namespace Setup

variable {IP : Type} {s : Setup IP} {target : GoString}

/-! ## The rules -/

/-- A proxy that was chosen for a target was chosen for some `https` URL. -/
theorem rules_of_ruled {p : URL} (h : s.ruled target = some (some p)) :
    ∃ r, r.scheme = bytes "https" ∧ s.rules s.value r = .ok (some p) := by
  rw [ruled] at h
  cases hparse : parseURL s.grammar (bytes "https://" ++ target) with
  | error err =>
    rw [hparse] at h
    contradiction
  | ok u =>
    rw [hparse] at h
    have hscheme := scheme_behind_https hparse
    cases hfunc : s.proxyFunc u with
    | error err =>
      simp only [hfunc] at h
      contradiction
    | ok r =>
      simp only [hfunc] at h
      cases h
      rw [proxyFunc] at hfunc
      split at hfunc
      · rw [resolveProxyFunc_eq] at hfunc
        refine ⟨askedURL s.parseIP s.lookupHost (heapOf u) 0, ?_, hfunc⟩
        rw [scheme_askedURL Nat.zero_lt_one]
        exact hscheme
      · exact ⟨u, hscheme, hfunc⟩

theorem value_ne_nil (hreads : ReadsValue s.grammar s.rules) {p : URL}
    (h : s.ruled target = some (some p)) : s.value ≠ [] := by
  obtain ⟨r, hscheme, hrules⟩ := rules_of_ruled h
  intro hnil
  rw [hnil] at hrules
  exact hreads.unset r p hscheme hrules

/-! ## The dialer -/

theorem handleConnect_unset (h : s.value = []) : s.handleConnect target = .ok target := by
  have hinit : initProxyConnectDialer s.grammar s.getenv = .ok .net :=
    if_neg (Classical.not_not.mpr h)
  rw [handleConnect, hinit]
  rfl

theorem init_of_value (h : s.value ≠ []) :
    initProxyConnectDialer s.grammar s.getenv =
      match parseURL s.grammar s.value with
      | .error _ => .error (bytes "failed to parse proxy URL: " ++ s.value)
      | .ok u => .ok (.perHost (newProxyDialer u)) := if_pos h

/-- The process does not start. -/
theorem handleConnect_fatal {err : GoString} (h : s.value ≠ [])
    (hparse : parseURL s.grammar s.value = .error err) (target address : GoString) :
    s.handleConnect target ≠ .ok address := by
  rw [handleConnect, init_of_value h, hparse]
  nofun

theorem handleConnect_ruled {u : URL} {proxyURL : Option URL} (h : s.value ≠ [])
    (hparse : parseURL s.grammar s.value = .ok u) (hruled : s.ruled target = some proxyURL) :
    s.handleConnect target = .ok (proxyURL.elim target fun _ => u.host) := by
  rw [handleConnect, init_of_value h, hparse]
  show dialContext s.grammar s.proxyFunc true target (.perHost (newProxyDialer u)) = _
  rw [ruled] at hruled
  rw [dialContext, getDialer]
  cases htarget : parseURL s.grammar (bytes "https://" ++ target) with
  | error err =>
    rw [htarget] at hruled
    contradiction
  | ok r =>
    rw [htarget] at hruled
    simp only at hruled ⊢
    cases hfunc : s.proxyFunc r with
    | error err =>
      rw [hfunc] at hruled
      contradiction
    | ok p =>
      rw [hfunc] at hruled
      rw [← Option.some.inj hruled]
      cases p with
      | none => rfl
      | some p => rfl

/-- For a target with a proxy: what the rules read off the value and what the application
reads off it have one address. -/
theorem addressOf_eq_iff (hreads : ReadsValue s.grammar s.rules)
    (hauth : s.grammar.parseAuthority (bytes "http") [] = .ok []) {u p : URL}
    (hparse : parseURL s.grammar s.value = .ok u) (hruled : s.ruled target = some (some p)) :
    addressOf p = some u.host ↔ u.port ≠ [] ∧
      (u.scheme ≠ [] ∨ ∀ q, parseURL s.grammar (bytes "http://" ++ s.value) ≠ .ok q) := by
  obtain ⟨r, hscheme, hrules⟩ := rules_of_ruled hruled
  by_cases hcomplete : u.scheme ≠ [] ∧ u.host ≠ []
  · have hp := hreads.complete s.value u r p ⟨hparse, hcomplete⟩ hscheme hrules
    rw [hp, addressOf_eq_host_iff, and_iff_left (.inl hcomplete.1)]
  · have hnone : ∀ u', ¬ Complete s.grammar s.value u' := by
      rintro u' ⟨hparse', hcomplete'⟩
      rw [hparse] at hparse'
      cases hparse'
      exact hcomplete hcomplete'
    by_cases hbare : ∃ q, parseURL s.grammar (bytes "http://" ++ s.value) = .ok q
    · obtain ⟨q, hq⟩ := hbare
      rw [hreads.bare s.value q r p hnone hq hscheme hrules]
      have hlost : u.host ≠ [] → u.scheme = [] := by
        intro hhost
        exact Classical.byContradiction fun hne => hcomplete ⟨hne, hhost⟩
      constructor
      · intro haddress
        by_cases hhost : u.host = []
        · rw [hhost] at haddress
          exact absurd haddress (addressOf_ne_nil q)
        · have hnil := host_eq_nil_behind_http hauth hparse (hlost hhost) hhost hq
          rw [addressOf_of_host_eq_nil hnil] at haddress
          contradiction
      · rintro ⟨hport, hor⟩
        rcases hor with hne | hfails
        · exact absurd (hlost (host_ne_nil_of_port hport)) hne
        · exact absurd hq (hfails q)
    · have hfails : ∀ q, parseURL s.grammar (bytes "http://" ++ s.value) ≠ .ok q := by
        intro q hq
        exact hbare ⟨q, hq⟩
      have hp := hreads.other s.value u r p hnone hfails hparse hscheme hrules
      rw [hp, addressOf_eq_host_iff, and_iff_left (.inr hfails)]

/-- A tunnel follows the rules exactly when the value is usable without them. -/
theorem followsRules_iff (hreads : ReadsValue s.grammar s.rules)
    (hauth : s.grammar.parseAuthority (bytes "http") [] = .ok []) :
    s.FollowsRules target ↔ s.NamesProxy target := by
  cases hruled : s.ruled target with
  | none => simp only [FollowsRules, NamesProxy, hruled]
  | some proxyURL =>
    cases proxyURL with
    | none =>
      simp only [FollowsRules, NamesProxy, hruled]
      by_cases hvalue : s.value = []
      · exact ⟨fun _ => .inl hvalue, fun _ => handleConnect_unset hvalue⟩
      · cases hparse : parseURL s.grammar s.value with
        | error err =>
          have hfatal := handleConnect_fatal hvalue hparse target target
          simp [hvalue, hfatal]
        | ok u =>
          rw [handleConnect_ruled hvalue hparse hruled]
          simp
    | some p =>
      have hvalue := value_ne_nil hreads hruled
      simp only [FollowsRules, NamesProxy, hruled]
      cases hparse : parseURL s.grammar s.value with
      | error err =>
        have hfatal := handleConnect_fatal hvalue hparse target
        simp [hfatal]
      | ok u =>
        rw [handleConnect_ruled hvalue hparse hruled]
        simp only [Except.ok.injEq, exists_eq_left', exists_eq_right']
        exact addressOf_eq_iff hreads hauth hparse hruled

end Setup

/-! ## Three values -/

/-- The values below have nothing in them that is escaped or refused. -/
def plainGrammar : Grammar := ⟨fun _ authority => .ok authority, .ok, .ok⟩

/-- Rules without exceptions. -/
def proxyAll (v : GoString) (r : URL) : Except GoString (Option URL) :=
  if v ≠ [] ∧ r.scheme = bytes "https" then
    match parseURL plainGrammar v, parseURL plainGrammar (bytes "http://" ++ v) with
    | .ok u, .ok q => .ok (some (if u.scheme ≠ [] ∧ u.host ≠ [] then u else q))
    | .ok u, .error _ => .ok (some u)
    | .error _, .ok q => .ok (some q)
    | .error _, .error _ => .ok none
  else .ok none

theorem readsValue_proxyAll : ReadsValue plainGrammar proxyAll := by
  constructor
  · intro r p _ h
    cases h
  · rintro v u r p ⟨hparse, hcomplete⟩ _ h
    rw [proxyAll] at h
    split at h
    · cases hq : parseURL plainGrammar (bytes "http://" ++ v) with
      | error err =>
        rw [hparse, hq] at h
        cases h
        rfl
      | ok q =>
        rw [hparse, hq] at h
        simp only [if_pos hcomplete] at h
        cases h
        rfl
    · cases h
  · intro v q r p hnone hq _ h
    rw [proxyAll] at h
    split at h
    · cases hparse : parseURL plainGrammar v with
      | error err =>
        rw [hparse, hq] at h
        cases h
        rfl
      | ok u =>
        have hincomplete : ¬ (u.scheme ≠ [] ∧ u.host ≠ []) := fun hc => hnone u ⟨hparse, hc⟩
        rw [hparse, hq] at h
        simp only [if_neg hincomplete] at h
        cases h
        rfl
    · cases h
  · intro v u r p _ hfails hparse _ h
    rw [proxyAll] at h
    split at h
    · cases hq : parseURL plainGrammar (bytes "http://" ++ v) with
      | error err =>
        rw [hparse, hq] at h
        cases h
        rfl
      | ok q => exact absurd hq (hfails q)
    · cases h

def setupFor (v : String) : Setup Unit where
  grammar := plainGrammar
  getenv := fun n => if n = bytes "HTTPS_PROXY" then bytes v else []
  resolveHost := false
  parseIP := noIP
  lookupHost := fun _ => .ok []
  rules := proxyAll

theorem followsRules_port :
    (setupFor "http://proxy.example.com:3128").FollowsRules (bytes "example.com:443") := by
  apply (Setup.followsRules_iff readsValue_proxyAll rfl).mpr
  refine ⟨⟨bytes "http", bytes "proxy.example.com:3128", [], []⟩, rfl, by decide, ?_⟩
  exact .inl (by decide)

/-- The rules choose port 80, and a host without a port is dialled; they choose a proxy
without a scheme, and an empty host is dialled; the third value ends the process. -/
theorem proxies_not_dialled :
    ((setupFor "http://proxy.example.com").ruled (bytes "example.com:443") =
        some (some ⟨bytes "http", bytes "proxy.example.com", [], []⟩) ∧
      (setupFor "http://proxy.example.com").handleConnect (bytes "example.com:443") =
        .ok (bytes "proxy.example.com") ∧
      ¬ (setupFor "http://proxy.example.com").FollowsRules (bytes "example.com:443")) ∧
    ((setupFor "proxy.example.com:3128").ruled (bytes "example.com:443") =
        some (some ⟨bytes "http", bytes "proxy.example.com:3128", [], []⟩) ∧
      (setupFor "proxy.example.com:3128").handleConnect (bytes "example.com:443") = .ok [] ∧
      ¬ (setupFor "proxy.example.com:3128").FollowsRules (bytes "example.com:443")) ∧
    (setupFor "10.0.0.1:3128").ruled (bytes "example.com:443") =
        some (some ⟨bytes "http", bytes "10.0.0.1:3128", [], []⟩) ∧
      (setupFor "10.0.0.1:3128").handleConnect (bytes "example.com:443") =
        .error (bytes "failed to parse proxy URL: 10.0.0.1:3128") := by
  refine ⟨⟨rfl, rfl, ?_⟩, ⟨rfl, rfl, ?_⟩, rfl, rfl⟩
  · intro h
    obtain ⟨address, haddress, hdialled⟩ := h
    cases Except.ok.inj hdialled
    have hport : addressOf ⟨bytes "http", bytes "proxy.example.com", [], []⟩ =
        some (bytes "proxy.example.com") := haddress
    exact absurd hport (by decide)
  · intro h
    obtain ⟨address, haddress, hdialled⟩ := h
    cases Except.ok.inj hdialled
    exact addressOf_ne_nil _ haddress

end Selebrow.Proxy
