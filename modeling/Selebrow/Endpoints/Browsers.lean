import Selebrow.Docker.Ports
import Selebrow.Endpoints.Authority
import Selebrow.Kubernetes.Allocate

/-!
# The endpoints of a browser

A browser has a URL, a host and an address for each of its other ports.  The URL and the
host are formatted, the addresses are joined: they are written alike for hosts without
colons.  The browsers of both backends are put together in the same way; a Docker browser
in mapping mode is reached by the name of the Docker host and by mapped ports.
-/

namespace Selebrow

/-- `GetHostPort` for the port that the browser has under a name, or zero. -/
def Endpoints.hostPortOf (forwardedHost : GoString) (p : Int) : GoString :=
  if p = 0 then [] else Net.joinHostPort forwardedHost (portText p)

def Docker.DockerBrowser.getHostPort {URL : Type} (b : DockerBrowser URL)
    (name : Catalog.ContainerPort) : GoString :=
  Endpoints.hostPortOf b.forwardedHost ((b.ports.lookup name).getD 0)

def Kubernetes.Manager.KubernetesBrowser.getHostPort {URL : Type} (b : KubernetesBrowser URL)
    (name : Catalog.ContainerPort) : GoString :=
  Endpoints.hostPortOf b.forwardedHost ((b.ports.lookup name).getD 0)

namespace Endpoints

open Catalog

/-- The port that an entry has under a name, as far as it is available. -/
def available (cfg : BrowserImageConfig) (vncEnabled : Bool) (name : ContainerPort) : Option Int :=
  if vncEnabled || name != vncPort then cfg.ports.lookup name else none

/-- The address splits into a host and a port. -/
def SplitsInto (s host : GoString) (p : Int) : Prop :=
  Net.HostPort.splitHostPort s = .ok (host, portText p)

/-- The endpoints of a browser name the container's address and the configured port, the
forwarded host and the ports that it has there, and none for a name that is not listed. -/
structure Names (url : Net.URL) (host : GoString) (getHostPort : ContainerPort → GoString)
    (address forwardedHost : GoString) (configured : Int)
    (port listed : ContainerPort → Option Int) : Prop where
  url : ∃ p, port browserPort = some p ∧ SplitsInto url.host forwardedHost p
  host : SplitsInto host address configured
  ports : ∀ name p, name ≠ browserPort → port name = some p →
    SplitsInto (getHostPort name) forwardedHost p
  empty : ∀ name, name ≠ browserPort → (getHostPort name = [] ↔ listed name = none)

/-- The address has no colon, the path fits behind the host and the port, and no other port
is zero. -/
structure Fits (address forwardedHost path : GoString) (port : ContainerPort → Option Int) :
    Prop where
  address : 58 ∉ address
  path : ∃ p, port browserPort = some p ∧ PathFits forwardedHost (portText p) path
  nonzero : ∀ name, name ≠ browserPort → port name ≠ some 0

variable {g : Net.Grammar} {url : Net.URL} {host address forwardedHost path : GoString}
  {getHostPort : ContainerPort → GoString} {configured : Int}
  {port listed : ContainerPort → Option Int}

theorem splitsInto_hostPortOf (hfwd : HostText forwardedHost) {p : Int} (hp : p ≠ 0) :
    SplitsInto (hostPortOf forwardedHost p) forwardedHost p := by
  rw [SplitsInto, hostPortOf, if_neg hp]
  exact Net.HostPort.splitHostPort_joinHostPort hfwd.unbracketed (unbracketed_portText p)
    (colon_notMem_portText p)

theorem not_splitsInto_nil {p : Int} : ¬ SplitsInto [] forwardedHost p := by
  intro h
  cases h

theorem hostPortOf_zero : hostPortOf forwardedHost 0 = [] := if_pos rfl

theorem hostPortOf_ne_nil (hfwd : HostText forwardedHost) {p : Int} (hp : p ≠ 0) :
    hostPortOf forwardedHost p ≠ [] := by
  intro hnil
  have hsplit := splitsInto_hostPortOf hfwd hp
  rw [hnil] at hsplit
  exact not_splitsInto_nil hsplit

/-- Endpoints that are put together from a forwarded host, an address and ports. -/
structure Built (g : Net.Grammar) (url : Net.URL) (host : GoString)
    (getHostPort : ContainerPort → GoString) (address forwardedHost path : GoString)
    (configured : Int) (port listed : ContainerPort → Option Int) : Prop where
  url : ∃ p, port browserPort = some p ∧
    Net.parseURL g (bytes "http://" ++ (Net.HostPort.plain forwardedHost (portText p) ++ path)) =
      .ok url
  host : host = Net.HostPort.plain address (portText configured)
  ports : ∀ name, name ≠ browserPort →
    getHostPort name = hostPortOf forwardedHost ((port name).getD 0)
  listed : ∀ name, port name = none ↔ listed name = none

theorem Built.names_iff
    (h : Built g url host getHostPort address forwardedHost path configured port listed)
    (hauth : ReadsHost g) (haddress : HostText address) (hfwd : HostText forwardedHost) :
    Names url host getHostPort address forwardedHost configured port listed ↔
      Fits address forwardedHost path port := by
  obtain ⟨p, hp, hurl⟩ := h.url
  have hpath := splits_iff hauth hfwd hurl
  constructor
  · intro hnames
    constructor
    · have hhost := hnames.host
      rw [SplitsInto, h.host, Net.HostPort.splitHostPort_plain_iff haddress.unbracketed
        (unbracketed_portText configured) (colon_notMem_portText configured)] at hhost
      exact hhost
    · obtain ⟨p', hp', hsplit⟩ := hnames.url
      rw [hp] at hp'
      cases hp'
      exact ⟨p, hp, hpath.mp hsplit⟩
    · intro name hne hzero
      have hsplit := hnames.ports name 0 hne hzero
      rw [h.ports name hne, hzero, Option.getD_some, hostPortOf_zero] at hsplit
      exact not_splitsInto_nil hsplit
  · intro hfits
    constructor
    · obtain ⟨p', hp', hpathFits⟩ := hfits.path
      rw [hp] at hp'
      cases hp'
      exact ⟨p, hp, hpath.mpr hpathFits⟩
    · rw [SplitsInto, h.host]
      exact Net.HostPort.splitHostPort_plain haddress.unbracketed (unbracketed_portText configured)
        hfits.address (colon_notMem_portText configured)
    · intro name p' hne hp'
      rw [h.ports name hne, hp', Option.getD_some]
      apply splitsInto_hostPortOf hfwd
      rintro rfl
      exact hfits.nonzero name hne hp'
    · intro name hne
      rw [h.ports name hne, ← h.listed name]
      cases hname : port name with
      | none => simp [hostPortOf_zero]
      | some p' =>
        have hp' : p' ≠ 0 := by
          rintro rfl
          exact hfits.nonzero name hne hname
        rw [Option.getD_some]
        simp [hostPortOf_ne_nil hfwd hp']

/-! ## The ports of an entry -/

theorem lookup_filter_key {ν : Type} (keep : ContainerPort → Bool) (l : List (ContainerPort × ν))
    (name : ContainerPort) :
    (l.filter fun e => keep e.1).lookup name = if keep name then l.lookup name else none := by
  induction l with
  | nil => simp
  | cons e l ih =>
    obtain ⟨key, v⟩ := e
    rw [List.filter_cons]
    by_cases hname : name = key
    · subst hname
      cases hkeep : keep name with
      | false =>
        rw [if_neg Bool.false_ne_true, ih, hkeep]
        rfl
      | true =>
        rw [if_pos rfl, List.lookup_cons, List.lookup_cons, beq_self_eq_true]
        rfl
    · have hne : (name == key) = false := beq_eq_false_iff_ne.mpr hname
      cases hkeep : keep key with
      | false => rw [if_neg Bool.false_ne_true, ih, List.lookup_cons, hne]
      | true => rw [if_pos rfl, List.lookup_cons, List.lookup_cons, hne, ih]

theorem lookup_getPorts (cfg : BrowserImageConfig) (vncEnabled : Bool) (name : ContainerPort) :
    (cfg.getPorts vncEnabled).lookup name = available cfg vncEnabled name := by
  rw [BrowserImageConfig.getPorts, lookup_filter_key (fun key => vncEnabled || key != vncPort),
    available, GoMap.lookup_entries]

theorem nodup_getPorts (cfg : BrowserImageConfig) (vncEnabled : Bool) :
    ((cfg.getPorts vncEnabled).map Prod.fst).Nodup :=
  cfg.ports.nodup.sublist (List.filter_sublist.map Prod.fst)

theorem available_browserPort (cfg : BrowserImageConfig) (vncEnabled : Bool) :
    available cfg vncEnabled browserPort = cfg.ports.lookup browserPort := by
  have hne : (vncEnabled || browserPort != vncPort) = true := by
    cases vncEnabled <;> decide
  rw [available, if_pos hne]

/-! ## Docker -/

section Docker

open Docker

variable {Port Quantity : Type} [DecidableEq Port]

/-- The host port that a port of the container is mapped to. -/
def mappedPort (lib : Parsers Port Quantity) (mapped : GoMap Port (List PortBinding)) (p : Int) :
    Option Int :=
  match getMappedPort lib mapped p with
  | .ok r => r
  | .error _ => none

variable {m : DockerBrowserManager Port Quantity Net.URL} {cfg : BrowserImageConfig}
  {vncEnabled : Bool} {info : InspectResponse Port} {settings : NetworkSettings Port}
  {ip : GoString} {b : DockerBrowser Net.URL}

/-- The port of that name on the forwarded host. -/
def dockerPort (m : DockerBrowserManager Port Quantity Net.URL) (cfg : BrowserImageConfig)
    (vncEnabled : Bool) (settings : NetworkSettings Port) (name : ContainerPort) : Option Int :=
  if m.opts.mapPorts then
    (available cfg vncEnabled name).bind (mappedPort m.lib settings.ports)
  else available cfg vncEnabled name

def dockerForwardedHost (m : DockerBrowserManager Port Quantity Net.URL) (ip : GoString) :
    GoString :=
  if m.opts.mapPorts then m.host else ip

/-- `createBrowser` has returned a browser, for an entry with a browser port and a container
with this address. -/
structure DockerReturned (g : Net.Grammar) (m : DockerBrowserManager Port Quantity Net.URL)
    (cfg : BrowserImageConfig) (vncEnabled : Bool) (info : InspectResponse Port)
    (settings : NetworkSettings Port) (ip : GoString) (b : DockerBrowser Net.URL) : Prop where
  parse : m.parseURL = Net.parseURL g
  host : HostText m.host
  hasPort : ∃ p, cfg.ports.lookup browserPort = some p
  networkSettings : info.networkSettings = some settings
  address : ∃ nw, getNetwork m.opts settings.networks = some nw ∧ nw.ipAddress = some ip
  addressText : HostText ip
  returned : createBrowser m cfg vncEnabled info = .ok (.ok b)

theorem DockerReturned.forwardedText (h : DockerReturned g m cfg vncEnabled info settings ip b) :
    HostText (dockerForwardedHost m ip) := by
  rw [dockerForwardedHost]
  split
  · exact h.host
  · exact h.addressText

theorem lookup_mapPorts {lib : Parsers Port Quantity} {mapped : GoMap Port (List PortBinding)}
    {ports : List (ContainerPort × Int)} {acc r : GoMap ContainerPort Int}
    (hnodup : (ports.map Prod.fst).Nodup) (h : mapPorts lib mapped ports acc = .ok (.ok r)) :
    (∀ name, r.lookup name =
      ((ports.lookup name).bind (mappedPort lib mapped)).or (acc.lookup name)) ∧
      ∀ e ∈ ports, ∃ n, mappedPort lib mapped e.2 = some n := by
  induction ports generalizing acc with
  | nil =>
    cases h
    exact ⟨fun _ => rfl, fun e he => absurd he List.not_mem_nil⟩
  | cons e rest ih =>
    obtain ⟨key, p⟩ := e
    rw [List.map_cons, List.nodup_cons] at hnodup
    rw [mapPorts] at h
    obtain ⟨found, hget, hrest⟩ := ok_of_bind h
    have hmapped : mappedPort lib mapped p = found := by
      rw [mappedPort, hget]
    split at hrest
    · cases hrest
    · cases hrest
    · rename_i n hn
      obtain ⟨hlookup, hsome⟩ := ih hnodup.2 hrest
      constructor
      · intro name
        rw [hlookup, GoMap.lookup_insert, List.lookup_cons]
        by_cases hname : name = key
        · have hnone : rest.lookup name = none := by
            rw [List.lookup_eq_none_iff]
            intro e he
            rw [bne_iff_ne]
            intro heq
            exact hnodup.1 (List.mem_map.mpr ⟨e, he, heq.symm.trans hname⟩)
          rw [hnone, if_pos hname, beq_iff_eq.mpr hname, Option.bind_some, hmapped]
          rfl
        · rw [if_neg hname, beq_eq_false_iff_ne.mpr hname]
      · rw [List.forall_mem_cons]
        exact ⟨⟨n, hmapped⟩, hsome⟩

theorem hostPort_eq (host : GoString) (p : Int) :
    Docker.hostPort host p = Net.HostPort.plain host (portText p) := by
  rw [Docker.hostPort, List.append_assoc]
  rfl

omit [DecidableEq Port] in
/-- The browser that is built once its host and its ports are known. -/
theorem built_browserAt {id host fwd : GoString} {ports : GoMap ContainerPort Int}
    {port listed : ContainerPort → Option Int} {p configured : Int} (hparse : m.parseURL = Net.parseURL g)
    (hhost : host = Docker.hostPort address configured)
    (hports : ∀ name, ports.lookup name = port name) (hp : port browserPort = some p)
    (hlisted : ∀ name, port name = none ↔ listed name = none) (h : browserAt m cfg id host fwd ports = .ok b) :
    Built g b.u b.host b.getHostPort address fwd cfg.path configured port listed := by
  rw [browserAt, hports, hp, Option.getD_some, hostPort_eq, List.append_assoc, hparse] at h
  split at h
  · contradiction
  · rename_i u hu
    cases h
    constructor
    · exact ⟨p, hp, hu⟩
    · rw [← hostPort_eq]
      exact hhost
    · intro name hne
      show hostPortOf fwd (((ports.delete browserPort).lookup name).getD 0) = _
      rw [GoMap.lookup_delete, if_neg hne, hports]
    · exact hlisted

/-- The ports of a browser in mapping mode. -/
theorem lookup_mapped {ports : GoMap ContainerPort Int} (hmap : m.opts.mapPorts = true)
    (h : mapPorts m.lib settings.ports (cfg.getPorts vncEnabled) .empty = .ok (.ok ports))
    (name : ContainerPort) : ports.lookup name = dockerPort m cfg vncEnabled settings name := by
  obtain ⟨hlookup, _⟩ := lookup_mapPorts (nodup_getPorts cfg vncEnabled) h
  rw [hlookup, lookup_getPorts, dockerPort, if_pos hmap]
  exact Option.or_none

theorem lookup_cloned (hmap : ¬ m.opts.mapPorts = true) (name : ContainerPort) :
    (cloneOf (cfg.getPorts vncEnabled)).lookup name = dockerPort m cfg vncEnabled settings name := by
  rw [dockerPort, if_neg hmap, ← lookup_getPorts]
  exact GoMap.lookup_ofList_eq (nodup_getPorts cfg vncEnabled) name

/-- The browser port is mapped when all ports of the entry are. -/
theorem dockerPort_browserPort {ports : GoMap ContainerPort Int} {p : Int}
    (hmap : m.opts.mapPorts = true) (hp : cfg.ports.lookup browserPort = some p)
    (h : mapPorts m.lib settings.ports (cfg.getPorts vncEnabled) .empty = .ok (.ok ports)) :
    ∃ n, dockerPort m cfg vncEnabled settings browserPort = some n := by
  obtain ⟨_, hsome⟩ := lookup_mapPorts (nodup_getPorts cfg vncEnabled) h
  have hne : (vncEnabled || browserPort != vncPort) = true := by
    cases vncEnabled <;> decide
  obtain ⟨n, hn⟩ := hsome (browserPort, p)
    (List.mem_filter.mpr ⟨(cfg.ports.mem_iff_lookup).mpr hp, hne⟩)
  apply Exists.intro n
  rw [dockerPort, if_pos hmap, available_browserPort, hp]
  exact hn

/-- All listed ports of a browser in mapping mode are mapped. -/
theorem dockerPort_eq_none {ports : GoMap ContainerPort Int} (hmap : m.opts.mapPorts = true)
    (h : mapPorts m.lib settings.ports (cfg.getPorts vncEnabled) .empty = .ok (.ok ports))
    (name : ContainerPort) :
    dockerPort m cfg vncEnabled settings name = none ↔ available cfg vncEnabled name = none := by
  obtain ⟨_, hsome⟩ := lookup_mapPorts (nodup_getPorts cfg vncEnabled) h
  rw [dockerPort, if_pos hmap]
  cases hname : available cfg vncEnabled name with
  | none => exact Iff.rfl
  | some p =>
    rw [← lookup_getPorts, List.lookup_eq_some_iff] at hname
    obtain ⟨before, after, heq, _⟩ := hname
    obtain ⟨n, hn⟩ := hsome (name, p) (by rw [heq]; exact List.mem_append_right _ List.mem_cons_self)
    rw [Option.bind_some, hn]
    simp

theorem DockerReturned.built (h : DockerReturned g m cfg vncEnabled info settings ip b) :
    Built g b.u b.host b.getHostPort ip (dockerForwardedHost m ip) cfg.path
      ((cfg.ports.lookup browserPort).getD 0) (dockerPort m cfg vncEnabled settings)
      (available cfg vncEnabled) := by
  obtain ⟨nw, hnetwork, hip⟩ := h.address
  obtain ⟨p, hp⟩ := h.hasPort
  have hreturned := h.returned
  rw [createBrowser, h.networkSettings] at hreturned
  simp only [hnetwork, hip] at hreturned
  split at hreturned
  · cases hreturned
  · split at hreturned
    · contradiction
    · cases hreturned
    · rename_i heq
      cases heq
      split at hreturned
      · rename_i hmap
        obtain ⟨r, hports, hr⟩ := ok_of_map hreturned
        cases r with
        | error err => contradiction
        | ok ports =>
          have hfwd : dockerForwardedHost m ip = m.host := if_pos hmap
          rw [hfwd]
          obtain ⟨n, hn⟩ := dockerPort_browserPort hmap hp hports
          exact built_browserAt h.parse rfl (lookup_mapped hmap hports) hn
            (dockerPort_eq_none hmap hports) hr
      · rename_i hmap
        have hfwd : dockerForwardedHost m ip = ip := if_neg hmap
        rw [hfwd]
        have hport : dockerPort m cfg vncEnabled settings browserPort = some p := by
          rw [dockerPort, if_neg hmap, available_browserPort, hp]
        have hsame : dockerPort m cfg vncEnabled settings = available cfg vncEnabled := by
          funext name
          exact if_neg hmap
        exact built_browserAt h.parse rfl (lookup_cloned hmap) hport
          (fun name => by rw [hsame]) (Except.ok.inj hreturned)

end Docker

/-! ## Kubernetes -/

section Kubernetes

open Kubernetes.Manager

/-- `createBrowser` has returned a browser, for an entry with a browser port and a pod with
this address. -/
structure KubernetesReturned {Backoff Err : Type} (g : Net.Grammar)
    (m : KubernetesBrowserManager Backoff Err Net.URL) (podName ip : GoString)
    (verCfg : BrowserImageConfig) (vncEnabled : Bool) (b : KubernetesBrowser Net.URL) : Prop where
  parse : m.parseURL = Net.parseURL g
  hasPort : ∃ p, verCfg.ports.lookup browserPort = some p
  addressText : HostText ip
  returned : createBrowser m podName ip verCfg vncEnabled = .ok b

variable {Backoff Err : Type} {m : KubernetesBrowserManager Backoff Err Net.URL}
  {podName ip : GoString} {verCfg : BrowserImageConfig} {vncEnabled : Bool}
  {b : KubernetesBrowser Net.URL}

theorem KubernetesReturned.built (h : KubernetesReturned g m podName ip verCfg vncEnabled b) :
    Built g b.u b.host b.getHostPort ip ip verCfg.path
      ((verCfg.ports.lookup browserPort).getD 0) (available verCfg vncEnabled)
      (available verCfg vncEnabled) := by
  obtain ⟨p, hp⟩ := h.hasPort
  have hhost : ∀ p, ip ++ bytes ":" ++ bytes (toString p) = Net.HostPort.plain ip (portText p) :=
    hostPort_eq ip
  have hreturned := h.returned
  simp only [createBrowser, h.parse, hhost, List.append_assoc] at hreturned
  split at hreturned
  · contradiction
  · rename_i u hu
    cases hreturned
    constructor
    · rw [hp] at hu
      exact ⟨p, (available_browserPort verCfg vncEnabled).trans hp, hu⟩
    · rfl
    · intro name _
      rw [KubernetesBrowser.getHostPort, lookup_getPorts]
    · exact fun name => Iff.rfl

end Kubernetes

/-- The endpoints of a browser name what they should exactly when its address has no colon,
the path fits and no other port is zero. -/
theorem endpoints_iff (hauth : ReadsHost g) :
    (∀ {Port Quantity : Type} [DecidableEq Port]
      {m : Docker.DockerBrowserManager Port Quantity Net.URL} {cfg : BrowserImageConfig}
      {vncEnabled : Bool} {info : Docker.InspectResponse Port}
      {settings : Docker.NetworkSettings Port} {ip : GoString} {b : Docker.DockerBrowser Net.URL},
      DockerReturned g m cfg vncEnabled info settings ip b →
        (Names b.u b.host b.getHostPort ip (dockerForwardedHost m ip)
            ((cfg.ports.lookup browserPort).getD 0) (dockerPort m cfg vncEnabled settings)
            (available cfg vncEnabled) ↔
          Fits ip (dockerForwardedHost m ip) cfg.path (dockerPort m cfg vncEnabled settings))) ∧
    ∀ {Backoff Err : Type} {m : Kubernetes.Manager.KubernetesBrowserManager Backoff Err Net.URL}
      {podName ip : GoString} {verCfg : BrowserImageConfig} {vncEnabled : Bool}
      {b : Kubernetes.Manager.KubernetesBrowser Net.URL},
      KubernetesReturned g m podName ip verCfg vncEnabled b →
        (Names b.u b.host b.getHostPort ip ip ((verCfg.ports.lookup browserPort).getD 0)
            (available verCfg vncEnabled) (available verCfg vncEnabled) ↔
          Fits ip ip verCfg.path (available verCfg vncEnabled)) := by
  constructor
  · intro Port Quantity _ m cfg vncEnabled info settings ip b h
    exact h.built.names_iff hauth h.addressText h.forwardedText
  · intro Backoff Err m podName ip verCfg vncEnabled b h
    exact h.built.names_iff hauth h.addressText h.addressText

/-! ## Two containers -/

/-- A grammar with the documented readings. -/
def decoding : Net.Grammar where
  parseAuthority := fun _ a => (Controllers.unescape (behindUser a)).elim (.error []) .ok
  unescapePath := fun p => (Controllers.unescape p).elim (.error []) .ok
  unescapeFragment := fun p => (Controllers.unescape p).elim (.error []) .ok

theorem readsHost_decoding : ReadsHost decoding := by
  intro a host h
  have hread : (Controllers.unescape (behindUser a)).elim (.error []) .ok = Except.ok host := h
  cases hun : Controllers.unescape (behindUser a) with
  | none =>
    rw [hun] at hread
    contradiction
  | some s =>
    rw [hun] at hread
    rw [Except.ok.inj hread]

/-- A manager in mapping mode, with this Docker host. -/
def managerAt (host : GoString) : Docker.DockerBrowserManager GoString Int Net.URL where
  cat := .empty
  opts := Docker.sampleManager.opts
  host := host
  lib := Docker.sampleParsers
  parseURL := Net.parseURL decoding

def mappedSettings (ip : GoString) : Docker.NetworkSettings GoString where
  networks := GoMap.empty.insert (bytes "selebrow") (some ⟨some ip⟩)
  ports := GoMap.empty.insert (bytes "4444/tcp") [⟨bytes "0.0.0.0", bytes "32768"⟩]

def mappedContainer (ip : GoString) : Docker.InspectResponse GoString :=
  ⟨bytes "c1", some ⟨true, bytes "running"⟩, some (mappedSettings ip)⟩

def mappedBrowser (ip : GoString) : Docker.DockerBrowser Net.URL where
  forwardedHost := bytes "127.0.0.1"
  u := ⟨bytes "http", bytes "127.0.0.1:32768", bytes "/", []⟩
  host := ip ++ bytes ":4444"
  ports := GoMap.empty.delete browserPort
  container := bytes "c1"

def sampleEntry : BrowserImageConfig := Docker.imageWithMemory (bytes "1Gi")

def sampleSettings : Docker.NetworkSettings GoString := mappedSettings (bytes "172.18.0.2")

theorem returned_mapped :
    DockerReturned decoding (managerAt (bytes "127.0.0.1")) sampleEntry false
      (mappedContainer (bytes "172.18.0.2")) sampleSettings (bytes "172.18.0.2")
      (mappedBrowser (bytes "172.18.0.2")) where
  parse := rfl
  host := by decide
  hasPort := ⟨4444, rfl⟩
  networkSettings := rfl
  address := ⟨_, rfl, rfl⟩
  addressText := by decide
  returned := rfl

/-- A manager whose pods are reached by their addresses. -/
def clusterManager : Kubernetes.Manager.KubernetesBrowserManager Int GoString Net.URL where
  cat := .empty
  backoff := 1
  backoffs := Kubernetes.Manager.constantBackoff
  kinds := Kubernetes.Manager.reasons
  parseURL := Net.parseURL decoding

def podBrowser : Kubernetes.Manager.KubernetesBrowser Net.URL where
  forwardedHost := bytes "10.0.0.7"
  u := ⟨bytes "http", bytes "10.0.0.7:4444", bytes "/", []⟩
  host := bytes "10.0.0.7:4444"
  ports := [(browserPort, 4444)]
  pod := bytes "browser-1"

theorem returned_pod :
    KubernetesReturned decoding clusterManager (bytes "browser-1") (bytes "10.0.0.7") sampleEntry
      false podBrowser where
  parse := rfl
  hasPort := ⟨4444, rfl⟩
  addressText := by decide
  returned := rfl

theorem available_sampleEntry {name : ContainerPort} (hne : name ≠ browserPort) :
    available sampleEntry false name = none := by
  have hlookup : sampleEntry.ports.lookup name = none := by
    show (GoMap.empty.insert browserPort (4444 : Int)).lookup name = none
    rw [GoMap.lookup_insert, if_neg hne]
    rfl
  rw [available]
  split
  · exact hlookup
  · rfl

theorem endpoints_named :
    Names (mappedBrowser (bytes "172.18.0.2")).u (mappedBrowser (bytes "172.18.0.2")).host
        (mappedBrowser (bytes "172.18.0.2")).getHostPort (bytes "172.18.0.2")
        (dockerForwardedHost (managerAt (bytes "127.0.0.1")) (bytes "172.18.0.2"))
        ((sampleEntry.ports.lookup browserPort).getD 0)
        (dockerPort (managerAt (bytes "127.0.0.1")) sampleEntry false sampleSettings)
        (available sampleEntry false) ∧
      Names podBrowser.u podBrowser.host podBrowser.getHostPort (bytes "10.0.0.7")
        (bytes "10.0.0.7") ((sampleEntry.ports.lookup browserPort).getD 0)
        (available sampleEntry false) (available sampleEntry false) := by
  constructor
  · apply ((endpoints_iff readsHost_decoding).1 returned_mapped).mpr
    constructor
    · decide
    · exact ⟨32768, rfl, .inl ⟨by decide, by decide⟩⟩
    · intro name hne
      have hnone : dockerPort (managerAt (bytes "127.0.0.1")) sampleEntry false sampleSettings
          name = none := by
        rw [dockerPort, available_sampleEntry hne]
        rfl
      rw [hnone]
      exact (Option.some_ne_none 0).symm
  · apply ((endpoints_iff readsHost_decoding).2 returned_pod).mpr
    constructor
    · decide
    · exact ⟨4444, rfl, .inl ⟨by decide, by decide⟩⟩
    · intro name hne
      rw [available_sampleEntry hne]
      exact (Option.some_ne_none 0).symm

/-- The host of a container with an IPv6 address does not split, though its URL does. -/
theorem endpoints_misnamed :
    DockerReturned decoding (managerAt (bytes "127.0.0.1")) sampleEntry false
        (mappedContainer (bytes "fd00::2")) (mappedSettings (bytes "fd00::2")) (bytes "fd00::2")
        (mappedBrowser (bytes "fd00::2")) ∧
      (mappedBrowser (bytes "fd00::2")).host = bytes "fd00::2:4444" ∧
      ¬ Names (mappedBrowser (bytes "fd00::2")).u (mappedBrowser (bytes "fd00::2")).host
        (mappedBrowser (bytes "fd00::2")).getHostPort (bytes "fd00::2")
        (dockerForwardedHost (managerAt (bytes "127.0.0.1")) (bytes "fd00::2"))
        ((sampleEntry.ports.lookup browserPort).getD 0)
        (dockerPort (managerAt (bytes "127.0.0.1")) sampleEntry false
          (mappedSettings (bytes "fd00::2"))) (available sampleEntry false) := by
  constructor
  · constructor
    · rfl
    · decide
    · exact ⟨4444, rfl⟩
    · rfl
    · exact ⟨_, rfl, rfl⟩
    · decide
    · rfl
  · constructor
    · rfl
    · intro h
      have herr : Net.HostPort.splitHostPort (mappedBrowser (bytes "fd00::2")).host =
          .error ⟨bytes Net.HostPort.tooManyColons, bytes "fd00::2:4444"⟩ := rfl
      have hhost := h.host
      rw [SplitsInto, herr] at hhost
      contradiction

end Endpoints

end Selebrow
