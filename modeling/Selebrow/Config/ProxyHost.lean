import Selebrow.Net.HostPort

/-!
# The proxy address that browsers are given

Without a configured proxy host the address is guessed: the host comes from the backend,
and the port from the address that the proxy listens on.  A host with a colon is taken to
have a port, and the port is taken to begin at the first colon.
-/

namespace Selebrow.Config

open Net.HostPort

/-- The values of the proxy's options. -/
structure ConfigViper where
  proxyHost : GoString
  noProxy : GoString
  proxyEnabled : Bool
  proxyListen : GoString

structure ProxyOpts where
  proxyHost : GoString
  noProxy : GoString
deriving DecidableEq, Repr

abbrev ProxyHostFunc := Unit → GoString

def dockerHost : GoString := bytes "host.docker.internal"

/-- `DockerProxyHost`, with what `detectNetwork` returns. -/
def dockerProxyHost (inDocker : Bool) (detectNetwork : Except GoString (GoString × GoString)) :
    GoString :=
  if !inDocker then dockerHost
  else
    match detectNetwork with
    | .error _ => []
    | .ok (_, ip) => ip

namespace ConfigViper

def defaultProxyHost (c : ConfigViper) (defaultProxyHostFn : ProxyHostFunc) :
    Except GoString GoString :=
  let host := defaultProxyHostFn ()
  if host = [] then .error (bytes "can't determine proxy host")
  else if 58 ∈ host then .ok host
  else
    match (splitAt 58 c.proxyListen).2 with
    | none =>
      .error (bytes "failed to get proxy port from listen spec: " ++ c.proxyListen)
    | some rest => .ok (host ++ 58 :: rest)

def proxyOpts (c : ConfigViper) (defaultProxyHostFn : ProxyHostFunc) :
    Except GoString (Option ProxyOpts) :=
  if c.proxyHost = [] then
    if c.proxyEnabled then
      (c.defaultProxyHost defaultProxyHostFn).map fun host => some ⟨host, c.noProxy⟩
    else .ok none
  else .ok (some ⟨c.proxyHost, c.noProxy⟩)

end ConfigViper

/-- A name or an address, without a port. -/
structure IsHost (host : GoString) : Prop where
  ne_nil : host ≠ []
  unbracketed : Unbracketed host

/-- The proxy is enabled, its host is not set, and it listens on this host and port. -/
structure Advertised (c : ConfigViper) (lhost port : GoString) : Prop where
  unset : c.proxyHost = []
  enabled : c.proxyEnabled = true
  listen : splitHostPort c.proxyListen = .ok (lhost, port)

/-- The proxy address is that host and that port. -/
def Dialable (c : ConfigViper) (fn : ProxyHostFunc) (port : GoString) : Prop :=
  ∃ opts, c.proxyOpts fn = .ok (some opts) ∧ splitHostPort opts.proxyHost = .ok (fn (), port)

variable {c : ConfigViper} {fn : ProxyHostFunc} {lhost port : GoString}

theorem Advertised.dialable_iff_exists (h : Advertised c lhost port) :
    Dialable c fn port ↔
      ∃ host, c.defaultProxyHost fn = .ok host ∧ splitHostPort host = .ok (fn (), port) := by
  have hopts : c.proxyOpts fn = (c.defaultProxyHost fn).map fun host => some ⟨host, c.noProxy⟩ := by
    rw [ConfigViper.proxyOpts, if_pos h.unset, if_pos h.enabled]
  rw [Dialable, hopts]
  constructor
  · rintro ⟨opts, heq, hsplit⟩
    cases hhost : c.defaultProxyHost fn with
    | error err =>
      rw [hhost] at heq
      contradiction
    | ok host =>
      rw [hhost] at heq
      cases heq
      exact ⟨host, rfl, hsplit⟩
  · rintro ⟨host, heq, hsplit⟩
    rw [heq]
    exact ⟨_, rfl, hsplit⟩

/-- The text of an address is longer than its host. -/
theorem splitHostPort_ne_self {s : GoString} : splitHostPort s ≠ .ok (s, port) := by
  intro h
  obtain ⟨_, _, _, hform⟩ := eq_of_splitHostPort h
  rcases hform with ⟨_, hs⟩ | hs
  · have hlen := congrArg List.length hs
    rw [plain, List.length_append, List.length_cons] at hlen
    omega
  · have hlen := congrArg List.length hs
    rw [bracketed, List.length_cons, List.length_append] at hlen
    omega

/-- What is taken for the port of the address that the proxy listens on. -/
theorem splitAt_listen (h : splitHostPort c.proxyListen = .ok (lhost, port)) :
    ∃ rest, (splitAt 58 c.proxyListen).2 = some rest ∧
      (58 ∉ lhost → rest = port) ∧ (58 ∈ lhost → 93 ∈ rest) := by
  obtain ⟨_, _, _, hform⟩ := eq_of_splitHostPort h
  rcases hform with ⟨hcolon, hs⟩ | hs
  · have hsplit : splitAt 58 c.proxyListen = (lhost, some port) := by
      rw [hs]
      exact splitAt_append hcolon port
    rw [hsplit]
    exact ⟨port, rfl, fun _ => rfl, fun hmem => absurd hmem hcolon⟩
  · by_cases hcolon : 58 ∈ lhost
    · obtain ⟨v, hv⟩ := Option.isSome_iff_exists.mp (isSome_splitAt hcolon)
      have hlhost := append_of_splitAt hv
      have hfront : 58 ∉ 91 :: (splitAt 58 lhost).1 := by
        rw [List.mem_cons, not_or]
        exact ⟨by decide, notMem_splitAt 58 lhost⟩
      have hform : c.proxyListen =
          91 :: (splitAt 58 lhost).1 ++ 58 :: (v ++ 93 :: plain [] port) := by
        have happend := congrArg (fun l => l ++ 93 :: plain [] port) hlhost
        rw [hs, bracketed]
        exact congrArg (List.cons 91) (happend.trans (List.append_assoc _ _ _))
      rw [hform, splitAt_append hfront]
      refine ⟨_, rfl, fun hmem => absurd hcolon hmem, fun _ => ?_⟩
      exact List.mem_append_right v List.mem_cons_self
    · have hfront : 58 ∉ 91 :: (lhost ++ [93]) := by
        rw [List.mem_cons, List.mem_append, List.mem_singleton]
        rintro (hmem | hmem | hmem)
        · contradiction
        · exact hcolon hmem
        · contradiction
      have hform : c.proxyListen = 91 :: (lhost ++ [93]) ++ 58 :: port := by
        rw [hs, bracketed, List.cons_append, List.append_assoc]
        rfl
      rw [hform, splitAt_append hfront]
      exact ⟨port, rfl, fun _ => rfl, fun hmem => absurd hmem hcolon⟩

theorem defaultProxyHost_of_notMem {rest : GoString} (hne : fn () ≠ []) (hcolon : 58 ∉ fn ())
    (hrest : (splitAt 58 c.proxyListen).2 = some rest) :
    c.defaultProxyHost fn = .ok (plain (fn ()) rest) := by
  rw [ConfigViper.defaultProxyHost]
  show (if fn () = [] then _ else if 58 ∈ fn () then _ else _) = _
  rw [if_neg hne, if_neg hcolon, hrest]
  rfl

theorem dialable_of_notMem (h : Advertised c lhost port) (hhost : IsHost (fn ()))
    (hcolon : 58 ∉ fn ()) (hlisten : 58 ∉ lhost) : Dialable c fn port := by
  obtain ⟨rest, hrest, hport, _⟩ := splitAt_listen h.listen
  obtain ⟨_, hunbracketed, hlast, _⟩ := eq_of_splitHostPort h.listen
  rw [h.dialable_iff_exists, defaultProxyHost_of_notMem hhost.ne_nil hcolon hrest, hport hlisten]
  exact ⟨_, rfl, splitHostPort_plain hhost.unbracketed hunbracketed hcolon hlast⟩

theorem notMem_of_dialable (h : Advertised c lhost port) (hhost : IsHost (fn ()))
    (hdial : Dialable c fn port) : 58 ∉ fn () ∧ 58 ∉ lhost := by
  rw [h.dialable_iff_exists] at hdial
  obtain ⟨host, hdefault, hsplit⟩ := hdial
  by_cases hcolon : 58 ∈ fn ()
  · have hself : c.defaultProxyHost fn = .ok (fn ()) := by
      rw [ConfigViper.defaultProxyHost]
      show (if fn () = [] then _ else if 58 ∈ fn () then _ else _) = _
      rw [if_neg hhost.ne_nil, if_pos hcolon]
    rw [hself] at hdefault
    cases hdefault
    exact absurd hsplit splitHostPort_ne_self
  · refine ⟨hcolon, ?_⟩
    intro hlisten
    obtain ⟨rest, hrest, _, hbracket⟩ := splitAt_listen h.listen
    rw [defaultProxyHost_of_notMem hhost.ne_nil hcolon hrest] at hdefault
    cases hdefault
    obtain ⟨_, hport, _, hform⟩ := eq_of_splitHostPort hsplit
    rcases hform with ⟨_, hform⟩ | hform
    · have hsame : rest = port := (List.cons.inj (List.append_cancel_left hform)).2
      rw [hsame] at hbracket
      exact hport.closing (hbracket hlisten)
    · obtain ⟨b, tail, hb⟩ := List.exists_cons_of_ne_nil hhost.ne_nil
      rw [plain, hb] at hform
      have hopening : b = 91 := (List.cons.inj hform).1
      apply hhost.unbracketed.opening
      rw [hb, hopening]
      exact List.mem_cons_self

/-- The guessed address is that of the proxy exactly when neither the host nor the host
that the proxy listens on has a colon. -/
theorem dialable_iff (h : Advertised c lhost port) (hhost : IsHost (fn ())) :
    Dialable c fn port ↔ 58 ∉ fn () ∧ 58 ∉ lhost := by
  constructor
  · exact notMem_of_dialable h hhost
  · rintro ⟨hcolon, hlisten⟩
    exact dialable_of_notMem h hhost hcolon hlisten

/-- Outside a container the proxy is reached by the name of the Docker host. -/
theorem dialable_dockerHost (h : Advertised c lhost port) (hlisten : 58 ∉ lhost)
    (detectNetwork : Except GoString (GoString × GoString)) :
    Dialable c (fun _ => dockerProxyHost false detectNetwork) port := by
  have hhost : IsHost dockerHost := ⟨by decide, by decide, by decide⟩
  have hcolon : 58 ∉ dockerHost := by decide
  exact dialable_of_notMem h hhost hcolon hlisten

/-! ## Three addresses -/

/-- The proxy listens on this address. -/
def listeningOn (proxyListen : GoString) : ConfigViper where
  proxyHost := []
  noProxy := bytes "<-loopback>"
  proxyEnabled := true
  proxyListen := proxyListen

theorem dialable_address :
    Dialable (listeningOn (bytes ":4446")) (fun _ => bytes "172.18.0.2") (bytes "4446") := by
  have h : Advertised (listeningOn (bytes ":4446")) [] (bytes "4446") := ⟨rfl, rfl, rfl⟩
  have hhost : IsHost (bytes "172.18.0.2") := ⟨by decide, by decide, by decide⟩
  exact (dialable_iff h hhost).mpr ⟨by decide, by decide⟩

/-- An address of the host with colons is taken to have a port.  An address to listen on
with colons is cut inside its brackets. -/
theorem not_dialable :
    (Advertised (listeningOn (bytes ":4446")) [] (bytes "4446") ∧
      IsHost (bytes "fd00::2") ∧
      (listeningOn (bytes ":4446")).proxyOpts (fun _ => bytes "fd00::2") =
        .ok (some ⟨bytes "fd00::2", bytes "<-loopback>"⟩) ∧
      ¬ Dialable (listeningOn (bytes ":4446")) (fun _ => bytes "fd00::2") (bytes "4446")) ∧
    Advertised (listeningOn (bytes "[::]:4446")) (bytes "::") (bytes "4446") ∧
      IsHost (bytes "172.18.0.2") ∧
      (listeningOn (bytes "[::]:4446")).proxyOpts (fun _ => bytes "172.18.0.2") =
        .ok (some ⟨bytes "172.18.0.2::]:4446", bytes "<-loopback>"⟩) ∧
      ¬ Dialable (listeningOn (bytes "[::]:4446")) (fun _ => bytes "172.18.0.2") (bytes "4446") := by
  have hplain : Advertised (listeningOn (bytes ":4446")) [] (bytes "4446") := ⟨rfl, rfl, rfl⟩
  have hbracketed : Advertised (listeningOn (bytes "[::]:4446")) (bytes "::") (bytes "4446") :=
    ⟨rfl, rfl, rfl⟩
  have hv6 : IsHost (bytes "fd00::2") := ⟨by decide, by decide, by decide⟩
  have hv4 : IsHost (bytes "172.18.0.2") := ⟨by decide, by decide, by decide⟩
  constructor
  · refine ⟨hplain, hv6, rfl, ?_⟩
    intro h
    exact absurd (notMem_of_dialable hplain hv6 h).1 (by decide)
  · refine ⟨hbracketed, hv4, rfl, ?_⟩
    intro h
    exact absurd (notMem_of_dialable hbracketed hv4 h).2 (by decide)

end Selebrow.Config
